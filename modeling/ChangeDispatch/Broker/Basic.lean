import ChangeDispatch.Broker.Delivery
import ChangeDispatch.Error

/-!
# The broker

A broker inside the process. Every subscription on a topic has its own copy of each
message that is published on it afterwards. The broker keeps a log of what was
published, counts publish attempts and settlements, and can be told to fail.
-/
namespace ChangeDispatch

structure Broker where
  /-- In the order in which they were made. -/
  subscriptions : List Subscription := []
  /-- What was published, with its topic, the oldest first. -/
  published : List (String × Payload) := []
  /-- How many messages there have been. -/
  messages : Nat := 0
  attempts : Nat := 0
  acked : Nat := 0
  nacked : Nat := 0
  terminated : Nat := 0
  /-- How many of the next publishes fail. -/
  failPublishes : Nat := 0
  /-- How many of the next receives fail. -/
  failReceives : Nat := 0
  failSubscriptions : Bool := false
  closed : Bool := false
  deriving Repr

namespace Broker

def adjust (b : Broker) (subscription : Nat) (f : Subscription → Subscription) : Broker :=
  { b with subscriptions := b.subscriptions.modify subscription f }

/-- Offer a message to every subscription on its topic. -/
def fanOut (b : Broker) (topic : String) (payload : Payload) : Broker :=
  let delivery : Delivery := ⟨b.messages, payload, 1⟩
  { b with
    messages := b.messages + 1
    subscriptions := b.subscriptions.map fun s =>
      if s.attached && s.topic == topic then s.arrive delivery else s }

def publish (b : Broker) (topic : String) (payload : Payload) :
    Except TransportError Unit × Broker :=
  if b.closed then (.error .closed, b)
  else
    let b := { b with attempts := b.attempts + 1 }
    match b.failPublishes with
    | n + 1 => (.error (.publish "injected publish failure"), { b with failPublishes := n })
    | 0 => (.ok (), { b with published := b.published ++ [(topic, payload)] }.fanOut topic payload)

/-- Make a subscription; the answer is its place in the list of subscriptions. -/
def subscribe (b : Broker) (config : SubscriptionConfig) : Except TransportError Nat × Broker :=
  if b.closed then (.error .closed, b)
  else if b.failSubscriptions then (.error (.subscribe "injected subscribe failure"), b)
  else
    (.ok b.subscriptions.length,
      { b with subscriptions := b.subscriptions ++ [{ toSubscriptionConfig := config }] })

/-- No subscription gets anything new. -/
def close (b : Broker) : Broker :=
  { b with
    closed := true
    subscriptions := b.subscriptions.map fun s => { s with attached := false } }

/-- Start a receive; the answer is the failure that it meets, if any. -/
def beginReceive (b : Broker) : Option TransportError × Broker :=
  match b.failReceives with
  | n + 1 => (some (.receive "injected receive failure"), { b with failReceives := n })
  | 0 => (none, b)

/-- Receive the oldest offer of a subscription. -/
def take? (b : Broker) (subscription : Nat) : Option (Delivery × Broker) := do
  let s ← b.subscriptions[subscription]?
  let (d, s) ← s.take?
  return (d, b.adjust subscription fun _ => s)

/-- Nothing can arrive at the subscription any more. -/
def isEnded (b : Broker) (subscription : Nat) : Bool :=
  (b.subscriptions[subscription]?).elim true Subscription.isEnded

def ack (b : Broker) (subscription : Nat) (d : Delivery) : Broker :=
  { b with acked := b.acked + 1 }.adjust subscription fun s => s.release d

def terminate (b : Broker) (subscription : Nat) (d : Delivery) : Broker :=
  { b with terminated := b.terminated + 1 }.adjust subscription fun s => s.release d

def nack (b : Broker) (subscription : Nat) (d : Delivery) (timer : Option Timer) : Broker :=
  { b with nacked := b.nacked + 1 }.adjust subscription fun s => s.handBack d timer

/-- Let go of an offer without settling it. -/
def discard (b : Broker) (subscription : Nat) (d : Delivery) : Broker :=
  b.adjust subscription fun s => s.release d

/-- The offers that are held back, with their subscriptions. -/
def delayed (b : Broker) : List (Nat × Timer) :=
  b.subscriptions.zipIdx.flatMap fun (s, i) => s.delayed.map fun entry => (i, entry.1)

def delayed? (b : Broker) (subscription serial : Nat) : Option (Timer × Delivery) :=
  (b.subscriptions[subscription]?).bind fun s => s.delayed? serial

/-- Make an offer that was held back. -/
def offerDelayed (b : Broker) (subscription : Nat) (entry : Timer × Delivery) : Broker :=
  b.adjust subscription fun s => s.offerDelayed entry

/-- The receiver of a subscription goes away. -/
def stopReceiving (b : Broker) (subscription : Nat) : Broker :=
  b.adjust subscription Subscription.stopReceiving

/-- How many subscriptions on a topic are still received from. -/
def subscriberCount (b : Broker) (topic : String) : Nat :=
  b.subscriptions.countP fun s => s.attached && s.receiving && s.topic == topic

/-- What was published on a topic, the oldest first. -/
def publishedOn (b : Broker) (topic : String) : List Payload :=
  b.published.filterMap fun (t, payload) => if t = topic then some payload else none

end Broker

end ChangeDispatch
