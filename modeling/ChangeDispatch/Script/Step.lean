import ChangeDispatch.System.Lifecycle

/-!
# Steps of a script

A script drives a system from outside. Each step is one action on the broker, on the
clock, or on an object that an earlier step made; objects are called by name. A step has
a reply of its own; what it sets going is reported when it has ended.
-/
namespace ChangeDispatch.Script

/-- A handler that rejects some messages. -/
structure HandlerPlan where
  /-- The messages are acknowledgments. -/
  acks : Bool := false
  /-- How long a call takes, in milliseconds. -/
  delay : Nat := 0
  /-- Reject events that are not valid. -/
  validates : Bool := false
  /-- How many of the first calls fail. -/
  failFirst : Nat := 0
  /-- The names of the workspaces whose messages are rejected. -/
  failNames : List String := []
  deriving DecidableEq, Repr

namespace HandlerPlan

/-- The answer to a call. -/
def answer (p : HandlerPlan) (call : Nat) (message : Message) : Except DispatchError Unit := do
  if p.validates then message.event.validate
  if call < p.failFirst ∨ message.event.name ∈ p.failNames then
    throw (.invalidEvent "rejected")

def handler (p : HandlerPlan) : Handler where
  decode payload :=
    if p.acks then (AckEvent.decode payload).map Message.ack
    else (ChangeEvent.decode payload).map Message.change
  duration _ _ := p.delay
  answer := p.answer

end HandlerPlan

/-- What a step drops. -/
inductive Kind where
  | subscription
  | delivery
  | publisher
  | correlator
  | waiter
  | queue
  deriving DecidableEq, Repr

inductive Step where
  | advance (ms : Nat)
  | failPublishes (count : Nat)
  | failReceives (count : Nat)
  | failSubscriptions (fail : Bool)
  | setFaults (faults : Faults)
  /-- Offer a message to the subscribers of a topic, past all counters and faults. -/
  | inject (topic : String) (payload : Payload)
  | publish (topic : String) (payload : Payload)
  | published (topic : String)
  | subscriberCount (topic : String)
  | closeBroker
  | subscribe (id : String) (config : SubscriptionConfig)
  | receive (subscription delivery : String)
  | ack (delivery : String)
  | nack (delivery : String) (delay : Duration)
  | terminate (delivery : String)
  | makeQueue (id : String) (capacity : Nat) (timeout : Duration)
  | enqueue (target : String) (event : ChangeEvent)
  | dequeue (queue : String)
  | closeQueue (queue : String)
  | dropReceiver (queue : String)
  | openPublisher (id : String) (config : DispatchConfig)
  /-- Open a publisher on a remote broker, with a configuration that is refused. -/
  | openRemote (config : DispatchConfig)
  | startCorrelator (id : String) (subscription : SubscriptionConfig)
      (timeout unmatchedDelay : Duration)
  | submit (target : String) (event : ChangeEvent)
  | register (target : String) (event : ChangeEvent) (waiter : String)
  | wait (waiter : String) (token : Option String)
  | waitForAck (target : String) (event : ChangeEvent) (token : Option String)
  | makeToken (id : String)
  | cancel (token : String)
  | close (target : String)
  | abort (step : Nat)
  | startConsumer (id topic name : String) (policy : Option DeadLetterPolicy) (plan : HandlerPlan)
  | seen (consumer : String)
  | stopConsumer (consumer : String)
  | drop (kind : Kind) (id : String)
  deriving DecidableEq, Repr

/-- The reply to a step. -/
inductive Reply where
  | nothing
  /-- The step has started a call. -/
  | started
  | done
  | opened (config : DispatchConfig)
  | registered (workspace : String)
  | flag (value : Bool)
  | count (value : Nat)
  | payloads (values : List Payload)
  | names (values : List String)
  | delivered (delivery : Delivery)
  | dequeued (event : ChangeEvent)
  /-- There is nothing to receive yet. -/
  | pending
  /-- The buffer of the queue is empty. -/
  | empty
  /-- There will never be anything to receive. -/
  | finished
  | failed (error : DispatchError)
  | transportFailed (error : TransportError)
  /-- The step names an object that does not exist. -/
  | unknown
  deriving DecidableEq, Repr

end ChangeDispatch.Script
