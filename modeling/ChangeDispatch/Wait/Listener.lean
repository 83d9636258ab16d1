import ChangeDispatch.Broker.Host
import ChangeDispatch.Wait.Registry

/-!
# The acknowledgment listener

One listener owns the subscription on the acknowledgment topic and settles each delivery
before it takes the next. A payload that cannot be read is terminated. An acknowledgment
that goes into the slot of a waiter is acked; any other is handed back, to be offered
again after a delay. After a failed receive the listener pauses.
-/
namespace ChangeDispatch

namespace Listener

inductive Phase where
  /-- About to start a receive. -/
  | ready
  /-- A receive is under way. -/
  | waiting
  /-- The pause after a failed receive. -/
  | pausing (timer : Timer)
  | ended
  deriving DecidableEq, Repr

/-- The pause after a failed receive, in milliseconds. -/
def receivePause : Nat := 250

end Listener

/-- Waits for acknowledgments, served by one listener. -/
structure Correlator where
  /-- The subscription of the listener. -/
  subscription : Nat
  /-- How long a wait lasts. -/
  timeout : Duration
  /-- How long an acknowledgment that nobody waits for is held back. -/
  unmatchedDelay : Duration
  registry : WaitRegistry := {}
  phase : Listener.Phase := .ready
  /-- The listener has been told to stop. -/
  stopping : Bool := false
  /-- Nobody has waited for the end of the listener yet. -/
  joinable : Bool := true
  /-- The caller has let go of the correlator. -/
  dropped : Bool := false
  deriving DecidableEq, Repr

namespace Correlator

def isEnded (c : Correlator) : Bool := c.phase == .ended

/-- End, and give the subscription up. -/
def finish (h : Host) (c : Correlator) : Host × Correlator :=
  (h.stopReceiving c.subscription, { c with phase := .ended })

/-- Report a success that is not the one that was asked for. -/
def noteMismatch (h : Host) (workspace : String) (ack : AckEvent) : Host :=
  if ack.status.isSuccess && ack.status != ack.event.status.expectedOutcome then
    h.note (.statusMismatch workspace ack.status ack.event.status.expectedOutcome)
  else h

/-- Hand back an acknowledgment that nobody waits for. -/
def handBack (h : Host) (c : Correlator) (d : Delivery) : Host :=
  let (result, h) := h.nack c.subscription d c.unmatchedDelay
  h.noteError result .ackHandBackFailed

/-- Settle one delivery. -/
def process (h : Host) (c : Correlator) (d : Delivery) : Host × Correlator :=
  match AckEvent.ofPayload d.payload with
  | .error e =>
    let h := h.note (.ackUndecodable e d.payload.length)
    let (result, h) := h.terminate c.subscription d
    (h.noteError result .ackTerminateFailed, c)
  | .ok ack =>
    match c.registry.offer ack with
    | (.taken entry, registry) =>
      let h := noteMismatch h entry.workspace ack
      let (result, h) := h.ack c.subscription d
      let h := h.note (.matched entry.serial d)
      (h.noteError result (.ackSettleFailed entry.workspace), { c with registry })
    | (.missed entry, registry) =>
      let h := noteMismatch h entry.workspace ack
      (handBack h c d, { c with registry })
    | (.unmatched, registry) => (handBack h c d, { c with registry })

/-- What the listener does next, if it can do anything now. -/
def step? (h : Host) (c : Correlator) : Option (Host × Correlator) :=
  match c.phase with
  | .ready =>
    if c.stopping then some (finish h c)
    else match h.beginReceive with
      | (none, h) => some (h, { c with phase := .waiting })
      | (some e, h) =>
        let (timer, h) := (h.note (.ackReceiveFailed e)).setTimer Listener.receivePause
        some (h, { c with phase := .pausing timer })
  | .waiting =>
    if c.stopping then some (finish h c)
    else match h.take? c.subscription with
      | some (d, h) =>
        let (h, c) := process h c d
        some (h, { c with phase := .ready })
      | none =>
        if h.broker.isEnded c.subscription then some (finish (h.note .ackSubscriptionEnded) c)
        else none
  | .pausing timer =>
    if c.stopping then some (finish h c)
    else if h.isDue timer then some (h, { c with phase := .ready })
    else none
  | .ended => none

/-- The timer that the listener waits for. -/
def timer? (c : Correlator) : Option Timer :=
  match c.phase with
  | .pausing timer => some timer
  | .ready | .waiting | .ended => none

end Correlator

end ChangeDispatch
