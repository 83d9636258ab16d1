import ChangeDispatch.Broker.Basic
import ChangeDispatch.Journal

/-!
# What all parts of a system share

The clock, the broker, the connection to it with its faults, and the journal. Over a
faulty connection a publish takes time, and settlements and the closing of the broker
can fail: a failed settlement has no effect, a failed closing has its effect all the
same.
-/
namespace ChangeDispatch

/-- What goes wrong on the connection to the broker. -/
structure Faults where
  /-- How long a publish takes, in milliseconds. -/
  publishDelay : Nat := 0
  failAck : Bool := false
  failNack : Bool := false
  failTerminate : Bool := false
  failClose : Bool := false
  deriving DecidableEq, Repr

structure Host where
  /-- Milliseconds since the start. -/
  now : Nat := 0
  /-- How many timers have been set. -/
  timers : Nat := 0
  broker : Broker := {}
  faults : Faults := {}
  /-- The latest entry first. -/
  journal : List JournalEntry := []
  deriving Repr

namespace Host

def note (h : Host) (notice : Notice) : Host :=
  { h with journal := ⟨h.now, notice⟩ :: h.journal }

/-- Report something if there is something to report. -/
def noteError {α : Type} (h : Host) (result : Except α Unit) (notice : α → Notice) : Host :=
  match result with
  | .ok () => h
  | .error e => h.note (notice e)

/-- Set a timer that is due after a number of milliseconds. -/
def setTimer (h : Host) (delay : Nat) : Timer × Host :=
  (⟨h.now + delay, h.timers⟩, { h with timers := h.timers + 1 })

/-- The timer has gone off. -/
def isDue (h : Host) (timer : Timer) : Bool := timer.due ≤ h.now

/-- Publish, after the time that a publish takes has passed. -/
def publish (h : Host) (topic : String) (payload : Payload) : Except TransportError Unit × Host :=
  let (result, broker) := h.broker.publish topic payload
  (result, { h with broker })

def subscribe (h : Host) (config : SubscriptionConfig) : Except TransportError Nat × Host :=
  let (result, broker) := h.broker.subscribe config
  (result, { h with broker })

/-- The failure of a settlement. -/
def settlementFailure : TransportError := .acknowledge "injected settlement failure"

/-- Settle an offer by `act`, unless the connection fails. -/
def settle (h : Host) (fails : Bool) (subscription : Nat) (d : Delivery)
    (act : Broker → Broker) : Except TransportError Unit × Host :=
  if fails then
    (.error settlementFailure, { h with broker := h.broker.discard subscription d })
  else (.ok (), { h with broker := act h.broker })

/-- The message was processed. -/
def ack (h : Host) (subscription : Nat) (d : Delivery) : Except TransportError Unit × Host :=
  h.settle h.faults.failAck subscription d fun b => b.ack subscription d

/-- The message can never be processed. -/
def terminate (h : Host) (subscription : Nat) (d : Delivery) :
    Except TransportError Unit × Host :=
  h.settle h.faults.failTerminate subscription d fun b => b.terminate subscription d

/-- The message was not processed here; it is to be offered again after a delay. -/
def nack (h : Host) (subscription : Nat) (d : Delivery) (delay : Duration) :
    Except TransportError Unit × Host :=
  if delay.isZero then
    h.settle h.faults.failNack subscription d fun b => b.nack subscription d none
  else
    let (timer, h) := h.setTimer delay.ticks
    h.settle h.faults.failNack subscription d fun b => b.nack subscription d (some timer)

/-- Close the broker. -/
def close (h : Host) : Except TransportError Unit × Host :=
  (if h.faults.failClose then .error (.connection "injected close failure") else .ok (),
    { h with broker := h.broker.close })

/-- Start a receive; the answer is the failure that it meets, if any. -/
def beginReceive (h : Host) : Option TransportError × Host :=
  let (failure, broker) := h.broker.beginReceive
  (failure, { h with broker })

/-- Receive the oldest offer of a subscription. -/
def take? (h : Host) (subscription : Nat) : Option (Delivery × Host) :=
  (h.broker.take? subscription).map fun (d, broker) => (d, { h with broker })

/-- The receiver of a subscription goes away. -/
def stopReceiving (h : Host) (subscription : Nat) : Host :=
  { h with broker := h.broker.stopReceiving subscription }

end Host

end ChangeDispatch
