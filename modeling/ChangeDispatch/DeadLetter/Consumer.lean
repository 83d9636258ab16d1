import ChangeDispatch.Broker.Host

/-!
# Consumers with a dead-letter topic

A consumer hands each message to a handler. A message that was handled is acked. One
whose handler fails is handed back, and on its last delivery copied to the dead-letter
topic; one that cannot be read is copied there at once. A copied message is acked; when
the copy fails the message is handed back.
-/
namespace ChangeDispatch

/-- How often a message is delivered, and where it goes then. -/
structure DeadLetterPolicy where
  maxDeliveries : Nat
  deadLetterTopic : String
  deriving DecidableEq, Repr

/-- Three deliveries, then the dead-letter topic of the topic. -/
def DeadLetterPolicy.ofTopic (topic : String) : DeadLetterPolicy := ⟨3, Topic.deadLetter topic⟩

/-- What a handler is given. -/
inductive Message where
  | change (event : ChangeEvent)
  | ack (ack : AckEvent)
  deriving DecidableEq, Repr

def Message.event : Message → ChangeEvent
  | change event => event
  | ack a => a.event

/-- What is done with the messages. Calls are numbered from 0. -/
structure Handler where
  decode : Payload → Except Json.Problem Message
  /-- How long a call takes, in milliseconds. -/
  duration : Nat → Message → Nat
  answer : Nat → Message → Except DispatchError Unit

namespace Consumer

inductive Phase where
  /-- About to start a receive. -/
  | ready
  /-- A receive is under way. -/
  | waiting
  /-- The handler has taken the message and is busy until the timer is due. -/
  | handling (d : Delivery) (message : Message) (timer : Timer)
  /-- About to copy the message to the dead-letter topic. -/
  | burying (d : Delivery)
  /-- The copy takes until the timer is due. -/
  | publishing (d : Delivery) (timer : Timer)
  | ended
  deriving DecidableEq, Repr

end Consumer

structure Consumer where
  topic : String
  policy : DeadLetterPolicy
  handler : Handler
  subscription : Nat
  /-- The messages that the handler was called with, the oldest first. -/
  seen : List Message := []
  phase : Consumer.Phase := .ready
  /-- The consumer has been told to stop. -/
  stopping : Bool := false

namespace Consumer

def isEnded (k : Consumer) : Bool := k.phase == .ended

/-- End, and give the subscription up. -/
def finish (h : Host) (k : Consumer) : Host × Consumer :=
  (h.stopReceiving k.subscription, { k with phase := .ended })

/-- Hand a message back to be delivered again at once. -/
def handBack (h : Host) (k : Consumer) (d : Delivery) : Host :=
  let (result, h) := h.nack k.subscription d ⟨0⟩
  h.noteError result (.messageHandBackFailed k.topic)

/-- Copy a message to the dead-letter topic and settle it. -/
def bury (h : Host) (k : Consumer) (d : Delivery) : Host :=
  match h.publish k.policy.deadLetterTopic d.payload with
  | (.ok (), h) =>
    let (result, h) := h.ack k.subscription d
    h.noteError result (.deadLetterAckFailed k.topic)
  | (.error e, h) =>
    handBack (h.note (.deadLetterFailed k.topic k.policy.deadLetterTopic e)) k d

/-- Settle a message as the answer of the handler asks for. -/
def conclude (h : Host) (k : Consumer) (d : Delivery) (answer : Except DispatchError Unit) :
    Host × Consumer :=
  match answer with
  | .ok () =>
    let (result, h) := h.ack k.subscription d
    let h := h.noteError result (.messageAckFailed k.topic)
    (h.note (.processed k.topic d), { k with phase := .ready })
  | .error e =>
    if k.policy.maxDeliveries ≤ d.number then
      (h.note (.handlerExhausted k.topic d.number e), { k with phase := .burying d })
    else
      let h := h.note (.handlerFailed k.topic d.number k.policy.maxDeliveries e)
      (handBack h k d, { k with phase := .ready })

/-- Call the handler, or bury a message that it cannot be called with. -/
def begin (h : Host) (k : Consumer) (d : Delivery) : Host × Consumer :=
  match k.handler.decode d.payload with
  | .error problem => (h.note (.undecodable k.topic problem), { k with phase := .burying d })
  | .ok message =>
    let (timer, h) := h.setTimer (k.handler.duration k.seen.length message)
    (h, { k with seen := k.seen ++ [message], phase := .handling d message timer })

/-- What the consumer does next, if it can do anything now. -/
def step? (h : Host) (k : Consumer) : Option (Host × Consumer) :=
  match k.phase with
  | .ready =>
    if k.stopping then some (finish h k)
    else match h.beginReceive with
      | (none, h) => some (h, { k with phase := .waiting })
      | (some e, h) => some (h.note (.receiveFailed k.topic e), k)
  | .waiting =>
    if k.stopping then some (finish h k)
    else match h.take? k.subscription with
      | some (d, h) => some (begin h k d)
      | none =>
        if h.broker.isEnded k.subscription then some (finish (h.note (.subscriptionEnded k.topic)) k)
        else none
  | .handling d message timer =>
    if h.isDue timer then some (conclude h k d (k.handler.answer (k.seen.length - 1) message))
    else none
  | .burying d =>
    if h.faults.publishDelay = 0 then some (bury h k d, { k with phase := .ready })
    else
      let (timer, h) := h.setTimer h.faults.publishDelay
      some (h, { k with phase := .publishing d timer })
  | .publishing d timer =>
    if h.isDue timer then some (bury h k d, { k with phase := .ready }) else none
  | .ended => none

/-- The timer that the consumer waits for. -/
def timer? (k : Consumer) : Option Timer :=
  match k.phase with
  | .handling _ _ timer | .publishing _ timer => some timer
  | .ready | .waiting | .burying _ | .ended => none

end Consumer

end ChangeDispatch
