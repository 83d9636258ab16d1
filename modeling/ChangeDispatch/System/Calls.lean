import ChangeDispatch.System.State

/-!
# Calls in progress

What a call does next: bring an event to a queue, wait for an acknowledgment, publish, or
close a publisher or a correlator. A wait looks at its slot first, then at its token and
last at its deadline. A publisher is closed in four stages: its queue takes no new
events, its worker drains the queue until a timer is due and is stopped then, its
listener is stopped and the pending waits fail, and the broker is closed.
-/
namespace ChangeDispatch.System

def setPhase (s : System) (n : Nat) (phase : Call.Phase) : System :=
  { s with calls := s.calls.modify n fun c => { c with phase } }

/-- Set a timer that is due after a number of milliseconds. -/
def setTimer (s : System) (delay : Nat) : Timer × System :=
  let (timer, host) := s.host.setTimer delay
  (timer, { s with host })

/-- End a call, and release what it has kept alive. -/
def endCall (s : System) (n : Nat) (result : Call.Result) : System :=
  let owner := (s.calls[n]?).elim .none Call.owner
  (s.setPhase n (.ended s.host.now result)).releaseOwner owner

/-- End a call that holds a waiter. -/
def endWaitCall (s : System) (n : Nat) (handle : Option WaitHandle) (result : Call.Result) :
    System :=
  (handle.elim s s.releaseWaiter).endCall n result

/-- The event was taken: the call is over, or its wait begins. -/
def afterQueued (s : System) (n : Nat) (event : ChangeEvent) (next : Option WaitHandle) : System :=
  let s := s.note (.queued ⟨n, event⟩)
  match next with
  | none => s.endCall n .done
  | some handle => s.setPhase n (.awaiting handle none)

def stepEnqueuing (s : System) (n queue : Nat) (event : ChangeEvent) (next : Option WaitHandle) :
    System :=
  match event.validate with
  | .error e => s.endWaitCall n next (.failed e)
  | .ok () =>
    match s.queues[queue]? with
    | none => s.endWaitCall n next (.failed .closed)
    | some q =>
      match q.offer ⟨n, event⟩ with
      | (.accepted, q) => (s.adjustQueue queue fun _ => q).afterQueued n event next
      | (.refused, _) => s.endWaitCall n next (.failed .closed)
      | (.blocked, q) =>
        let (timer, s) := (s.adjustQueue queue fun _ => q).setTimer q.timeout.ticks
        s.setPhase n (.inLine queue event timer next)

def stepInLine? (s : System) (n queue : Nat) (event : ChangeEvent) (timer : Timer)
    (next : Option WaitHandle) : Option System :=
  match s.queues[queue]? with
  | none => some (s.endWaitCall n next (.failed .closed))
  | some q =>
    match q.standing n with
    | .accepted => some ((s.adjustQueue queue fun q => q.collect n).afterQueued n event next)
    | .refused => some (s.endWaitCall n next (.failed .closed))
    | .blocked =>
      if s.host.isDue timer then
        let s := s.adjustQueue queue fun q => q.withdraw n
        let s := s.note (.queueFull event.name q.capacity q.timeout)
        some (s.endWaitCall n next (.failed (.queueFull q.capacity q.timeout)))
      else none

/-- Register a wait for the acknowledgment of an event. -/
def register (s : System) (correlator : Nat) (event : ChangeEvent) :
    Except DispatchError WaitHandle × System :=
  match s.correlators[correlator]? with
  | none => (.error .closed, s)
  | some c =>
    match c.registry.register event s.host.now c.timeout with
    | .error e => (.error e, s)
    | .ok (waiter, registry) =>
      (.ok ⟨correlator, waiter.serial⟩,
        s.adjustCorrelator correlator fun c => { c with registry })

def waiter? (s : System) (handle : WaitHandle) : Option Waiter :=
  (s.correlators[handle.correlator]?).bind fun c => c.registry.waiter? handle.serial

/-- How a wait ends now, if it does. -/
def waitResult? (s : System) (handle : WaitHandle) (token : Option Nat) : Option Call.Result :=
  match s.waiter? handle with
  | none => some (.failed .closed)
  | some w =>
    match w.slot with
    | .filled ack => some (.acknowledged ack)
    | .closed => some (.failed .closed)
    | .empty =>
      if s.tokenFired token then some (.failed .cancelled)
      else if w.deadline ≤ s.host.now then some (.failed (.timeout w.workspace w.timeout))
      else none

def stepAwaiting (s : System) (n : Nat) (handle : WaitHandle) (token : Option Nat) : System :=
  match s.waitResult? handle token with
  | some result => s.endWaitCall n (some handle) result
  | none =>
    let left := ((s.waiter? handle).elim 0 Waiter.deadline) - s.host.now
    let (timer, s) := s.setTimer left
    s.setPhase n (.waiting handle token timer)

/-- Publish, and end with the result. -/
def send (s : System) (n : Nat) (topic : String) (payload : Payload) : System :=
  match s.host.publish topic payload with
  | (.ok (), host) => { s with host }.endCall n .done
  | (.error e, host) => { s with host }.endCall n (.transportFailed e)

def workerEnded (s : System) (publisher : Nat) : Bool :=
  (s.publishers[publisher]?).elim true fun p => p.worker.isEnded

def listenerEnded (s : System) (correlator : Nat) : Bool :=
  (s.correlators[correlator]?).elim true Correlator.isEnded

/-- The first stage of closing a publisher that is still open. -/
def stepClosing (s : System) (n publisher : Nat) : System :=
  match s.publishers[publisher]? with
  | none => s.endCall n .done
  | some p =>
    if p.closed then s.endCall n .done
    else
      let s := s.adjustPublisher publisher fun p => { p with closed := true, joinable := false }
      let s := s.adjustQueue p.queue fun q => q.close.2
      if p.joinable then
        let (timer, s) := s.setTimer p.config.drainTimeout.ticks
        s.setPhase n (.draining publisher timer)
      else s.setPhase n (.stopping p.correlator (some publisher))

/-- The worker has ended; go on to the listener. -/
def afterWorker (s : System) (n publisher : Nat) : System :=
  match s.publishers[publisher]? with
  | none => s.endCall n .done
  | some p => (s.stopWorker publisher).setPhase n (.stopping p.correlator (some publisher))

def stepDraining? (s : System) (n publisher : Nat) (timer : Timer) : Option System :=
  if s.workerEnded publisher then some (s.afterWorker n publisher)
  else if s.host.isDue timer then
    let drainTimeout := (s.publishers[publisher]?).elim ⟨0⟩ fun p => p.config.drainTimeout
    some (((s.note (.drainTimedOut drainTimeout)).stopWorker publisher).setPhase n
      (.forcing publisher))
  else none

/-- The listener has ended: fail the pending waits, and close the broker if that is asked for. -/
def finishStopping (s : System) (n correlator : Nat) (next : Option Nat) : System :=
  let failed := (s.correlators[correlator]?).elim 0 fun c => c.registry.close.1
  let s := s.adjustCorrelator correlator fun c => { c with registry := c.registry.close.2 }
  let s := if 0 < failed then s.note (.waitsClosed failed) else s
  match next with
  | none => s.endCall n .done
  | some _ =>
    let (result, host) := s.host.close
    { s with host := host.noteError result .closeFailed }.endCall n .done

def stepStopping (s : System) (n correlator : Nat) (next : Option Nat) : System :=
  let s := s.stopListener correlator
  if (s.correlators[correlator]?).any (·.joinable) then
    (s.adjustCorrelator correlator fun c => { c with joinable := false }).setPhase n
      (.joining correlator next)
  else s.finishStopping n correlator next

/-- What a call does next, if it can do anything now. -/
def stepCall? (s : System) (n : Nat) : Option System :=
  match (s.calls[n]?).map Call.phase with
  | none => none
  | some phase =>
    match phase with
    | .enqueuing queue event next => some (s.stepEnqueuing n queue event next)
    | .inLine queue event timer next => s.stepInLine? n queue event timer next
    | .submitting correlator queue event =>
      match s.register correlator event with
      | (.error e, s) => some (s.endCall n (.failed e))
      | (.ok handle, s) => some (s.setPhase n (.enqueuing queue event (some handle)))
    | .registering correlator event token =>
      match s.register correlator event with
      | (.error e, s) => some (s.endCall n (.failed e))
      | (.ok handle, s) => some (s.setPhase n (.awaiting handle token))
    | .awaiting handle token => some (s.stepAwaiting n handle token)
    | .waiting handle token _ =>
      (s.waitResult? handle token).map fun result => s.endWaitCall n (some handle) result
    | .sending topic payload =>
      if s.host.faults.publishDelay = 0 then some (s.send n topic payload)
      else
        let (timer, s) := s.setTimer s.host.faults.publishDelay
        some (s.setPhase n (.publishing topic payload timer))
    | .publishing topic payload timer =>
      if s.host.isDue timer then some (s.send n topic payload) else none
    | .closing publisher => some (s.stepClosing n publisher)
    | .draining publisher timer => s.stepDraining? n publisher timer
    | .forcing publisher =>
      if s.workerEnded publisher then some (s.afterWorker n publisher) else none
    | .stopping correlator next => some (s.stepStopping n correlator next)
    | .joining correlator next =>
      if s.listenerEnded correlator then some (s.finishStopping n correlator next) else none
    | .ended .. | .aborted => none

/-- The timer that a call waits for. -/
def callTimer? (s : System) (n : Nat) : Option Timer :=
  match (s.calls[n]?).map Call.phase with
  | some (.inLine _ _ timer _) | some (.waiting _ _ timer) | some (.publishing _ _ timer)
  | some (.draining _ timer) => some timer
  | _ => none

end ChangeDispatch.System
