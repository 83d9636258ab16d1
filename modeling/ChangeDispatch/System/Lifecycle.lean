import ChangeDispatch.System.Schedule

/-!
# Making and dropping the parts of a system

A publisher whose configuration is refused or whose subscription fails leaves nothing but a
broker that is closed. When its queue cannot be made, the broker stays open and keeps the
subscription. Dropping an object takes effect when the last call that uses it has ended.
-/
namespace ChangeDispatch

/-- How the start of a publisher fails: with an error, or without an answer. -/
inductive OpenFailure where
  | error (e : DispatchError)
  | panic
  deriving DecidableEq, Repr

namespace System

/-- Close the broker after a failed start. -/
def releaseBroker (s : System) : System :=
  let (result, host) := s.host.close
  { s with host := host.noteError result .releaseFailed }

/-- Add a correlator on a subscription and start its listener. -/
def addCorrelator (s : System) (subscription : Nat) (timeout unmatchedDelay : Duration) :
    Nat × System :=
  let i := s.correlators.length
  (i, { s with
    correlators := s.correlators ++ [{ subscription, timeout, unmatchedDelay }]
    started := s.started ++ [.listener i] })

def addQueue (s : System) (q : Queue) : Nat × System :=
  (s.queues.length, { s with queues := s.queues ++ [q] })

/-- Add a publisher on a subscription and start its worker and its listener. -/
def addPublisher (s : System) (config : DispatchConfig) (subscription : Nat) : Nat × System :=
  let i := s.publishers.length
  let (queue, s) := s.addQueue (.ofCapacity config.queueCapacity config.enqueueTimeout)
  let s := { s with started := s.started ++ [Agent.worker i] }
  let (correlator, s) := s.addCorrelator subscription config.ackTimeout config.unmatchedAckDelay
  let worker : Worker :=
    { topic := config.changeTopic
      retry := { maxAttempts := config.maxPublishAttempts, delay := config.retryDelay } }
  let publisher : Publisher := { config, queue, correlator, worker }
  (i, { s with publishers := s.publishers ++ [publisher] })

/-- Start a publisher over the broker. -/
def openPublisher (s : System) (config : DispatchConfig) : Except OpenFailure Nat × System :=
  match config.validate with
  | .error e => (.error (.error e), s.releaseBroker)
  | .ok () =>
    let subscription : SubscriptionConfig :=
      { topic := config.ackTopic, name := config.ackSubscription,
        maxDeliveries := some config.ackMaxDeliveries }
    match s.host.subscribe subscription with
    | (.error e, host) =>
      (.error (.error (.transport e)),
        ({ s with host }.note (.ackSubscriptionFailed config.ackTopic e)).releaseBroker)
    | (.ok subscription, host) =>
      if Queue.maxCapacity < config.queueCapacity then
        -- the panic drops the new subscription, and nobody closes the broker
        (.error .panic, { s with host := host.stopReceiving subscription })
      else
        let (i, s) := { s with host }.addPublisher config subscription
        (.ok i, s)

/-- Subscribe and start a correlator. -/
def startCorrelator (s : System) (subscription : SubscriptionConfig)
    (timeout unmatchedDelay : Duration) : Except TransportError Nat × System :=
  match s.host.subscribe subscription with
  | (.error e, host) => (.error e, { s with host })
  | (.ok subscription, host) =>
    let (i, s) := { s with host }.addCorrelator subscription timeout unmatchedDelay
    (.ok i, s)

/-- Subscribe and start a consumer. -/
def startConsumer (s : System) (topic name : String) (policy : DeadLetterPolicy)
    (handler : Handler) : Except DispatchError Nat × System :=
  if policy.maxDeliveries = 0 then
    (.error (.configuration "dead-letter max deliveries must be at least 1"), s)
  else match s.host.subscribe { topic, name, maxDeliveries := some policy.maxDeliveries } with
    | (.error e, host) => (.error (.transport e), { s with host })
    | (.ok subscription, host) =>
      let i := s.consumers.length
      (.ok i, { s with
        host
        consumers := s.consumers ++ [{ topic, policy, handler, subscription }]
        started := s.started ++ [.consumer i] })

def addToken (s : System) : Nat × System :=
  (s.tokens.length, { s with tokens := s.tokens ++ [false] })

def fireToken (s : System) (i : Nat) : System :=
  { s with tokens := s.tokens.set i true }

/-- Start a call. -/
def startCall (s : System) (owner : Owner) (phase : Call.Phase) : Nat × System :=
  let n := s.calls.length
  (n, { s with calls := s.calls ++ [{ owner, phase }], started := s.started ++ [.call n] })

/-- Give a call up: it leaves the line, lets go of its waiter and never ends. -/
def abortCall (s : System) (n : Nat) : System :=
  match s.calls[n]? with
  | none => s
  | some c =>
    if !c.isRunning then s
    else
      let s := match c.phase with
        | .inLine queue _ _ next =>
          (next.elim s s.releaseWaiter).adjustQueue queue fun q => q.withdraw n
        | .enqueuing _ _ (some handle) | .awaiting handle _ | .waiting handle _ _ =>
          s.releaseWaiter handle
        | _ => s
      (s.setPhase n .aborted).releaseOwner c.owner

def dropPublisher (s : System) (i : Nat) : System :=
  (s.adjustPublisher i fun p => { p with dropped := true }).releasePublisher i

def dropCorrelator (s : System) (i : Nat) : System :=
  (s.adjustCorrelator i fun c => { c with dropped := true }).releaseCorrelator i

/-- Drop a queue together with its receiver. -/
def dropQueue (s : System) (i : Nat) : System :=
  s.adjustQueue i fun q => q.close.2.stopReceiving

def dropReceiver (s : System) (i : Nat) : System :=
  s.adjustQueue i Queue.stopReceiving

/-- Tell a consumer to stop. -/
def stopConsumer (s : System) (i : Nat) : System :=
  s.adjustConsumer i fun k => { k with stopping := true }

end System

end ChangeDispatch
