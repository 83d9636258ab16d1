import ChangeDispatch.Broker.Delivery
import ChangeDispatch.Event.Ack
import ChangeDispatch.Queue

/-!
# The journal

What the parts of the system report about their work. Each report is a notice; its
level, its wording and its named fields are functions of it. Notices of the level
`debug` tell what went well and are kept for the record only.
-/
namespace ChangeDispatch

inductive Level where
  | debug
  | warn
  | error
  deriving DecidableEq, Repr

inductive Notice where
  | queued (item : Item)
  | queueFull (workspace : String) (capacity : Nat) (waited : Duration)
  | published (topic : String) (item : Item) (attempt : Nat)
  | attemptFailed (topic : String) (item : Item) (attempt maxAttempts : Nat)
      (error : TransportError)
  | retriesExhausted (topic : String) (item : Item) (attempts : Nat)
  | abandoning (item : Item)
  | queueAbandoned (topic : String) (count : Nat)
  | ackSubscriptionFailed (topic : String) (error : TransportError)
  | releaseFailed (error : TransportError)
  | drainTimedOut (drainTimeout : Duration)
  | closeFailed (error : TransportError)
  | droppedWithoutClose (waiting : Nat)
  | ackReceiveFailed (error : TransportError)
  | ackSubscriptionEnded
  | ackUndecodable (error : DispatchError) (payloadSize : Nat)
  | ackTerminateFailed (error : TransportError)
  | statusMismatch (workspace : String) (status expected : AckStatus)
  | matched (serial : Nat) (delivery : Delivery)
  | ackSettleFailed (workspace : String) (error : TransportError)
  | ackHandBackFailed (error : TransportError)
  | waitsClosed (failed : Nat)
  | receiveFailed (topic : String) (error : TransportError)
  | subscriptionEnded (topic : String)
  | undecodable (topic : String) (error : Json.Problem)
  | processed (topic : String) (delivery : Delivery)
  | messageAckFailed (topic : String) (error : TransportError)
  | handlerExhausted (topic : String) (delivered : Nat) (error : DispatchError)
  | handlerFailed (topic : String) (delivered maxDeliveries : Nat) (error : DispatchError)
  | messageHandBackFailed (topic : String) (error : TransportError)
  | deadLetterAckFailed (topic : String) (error : TransportError)
  | deadLetterFailed (topic deadLetterTopic : String) (error : TransportError)
  deriving DecidableEq, Repr

namespace Notice

def level : Notice → Level
  | queued .. | published .. | abandoning .. | matched .. | processed .. => .debug
  | retriesExhausted .. | handlerExhausted .. | deadLetterFailed .. => .error
  | _ => .warn

def message : Notice → String
  | queued .. => "Change event queued"
  | queueFull .. => "Dispatch queue full, rejecting change event"
  | published .. => "Change event published"
  | attemptFailed .. => "Publish attempt failed"
  | retriesExhausted .. => "Publish retries exhausted, dropping change event"
  | abandoning .. => "Abandoning queued change event"
  | queueAbandoned .. => "Forced shutdown dropped queued change events"
  | ackSubscriptionFailed .. => "Ack subscription failed, releasing transport"
  | releaseFailed .. => "Failed to release transport after setup error"
  | drainTimedOut .. => "Publisher loop did not drain in time, forcing shutdown"
  | closeFailed .. => "Transport close failed"
  | droppedWithoutClose .. => "Publisher dropped without close, stopping background tasks"
  | ackReceiveFailed .. => "Failed to receive acknowledgment"
  | ackSubscriptionEnded => "Ack subscription ended"
  | ackUndecodable .. => "Skipping undecodable acknowledgment"
  | ackTerminateFailed .. => "Failed to terminate undecodable acknowledgment"
  | statusMismatch .. => "Acknowledgment status does not match the requested change"
  | matched .. => "Acknowledgment matched"
  | ackSettleFailed .. => "Failed to ack matched message"
  | ackHandBackFailed .. => "Failed to nack unmatched acknowledgment"
  | waitsClosed .. => "Closed pending acknowledgment waits"
  | receiveFailed .. => "Receive failed"
  | subscriptionEnded .. => "Subscription ended"
  | undecodable .. => "Undecodable message, dead-lettering"
  | processed .. => "Message processed"
  | messageAckFailed .. => "Failed to ack message"
  | handlerExhausted .. => "Handler failed on final delivery, dead-lettering"
  | handlerFailed .. => "Handler failed, requesting redelivery"
  | messageHandBackFailed .. => "Failed to nack message"
  | deadLetterAckFailed .. => "Failed to ack dead-lettered message"
  | deadLetterFailed .. => "Dead-letter publish failed"

/-- The named fields of a notice, as text. -/
def fields : Notice → List (String × String)
  | queued item | abandoning item => [("workspace", item.event.name)]
  | queueFull workspace capacity waited =>
      [("capacity", toString capacity), ("waited", waited.text), ("workspace", workspace)]
  | published topic item attempt =>
      [("attempt", toString attempt), ("status", item.event.status.name), ("topic", topic),
        ("workspace", item.event.name)]
  | attemptFailed topic item attempt maxAttempts error =>
      [("attempt", toString attempt), ("error", error.message),
        ("max_attempts", toString maxAttempts), ("topic", topic), ("workspace", item.event.name)]
  | retriesExhausted topic item attempts =>
      [("attempts", toString attempts), ("topic", topic), ("workspace", item.event.name)]
  | queueAbandoned topic count => [("abandoned", toString count), ("topic", topic)]
  | ackSubscriptionFailed topic error => [("error", error.message), ("topic", topic)]
  | releaseFailed error | closeFailed error | ackReceiveFailed error
  | ackTerminateFailed error | ackHandBackFailed error => [("error", error.message)]
  | drainTimedOut drainTimeout => [("drain_timeout", drainTimeout.text)]
  | droppedWithoutClose waiting => [("queued", toString waiting)]
  | ackSubscriptionEnded => []
  | ackUndecodable error payloadSize =>
      [("error", error.message), ("payload_size", toString payloadSize)]
  | statusMismatch workspace status expected =>
      [("expected", expected.name), ("status", status.name), ("workspace", workspace)]
  | matched .. => []
  | ackSettleFailed workspace error => [("error", error.message), ("workspace", workspace)]
  | waitsClosed failed => [("failed", toString failed)]
  | receiveFailed topic error | messageAckFailed topic error | messageHandBackFailed topic error
  | deadLetterAckFailed topic error => [("error", error.message), ("topic", topic)]
  | undecodable topic error => [("error", error.message), ("topic", topic)]
  | subscriptionEnded topic | processed topic _ => [("topic", topic)]
  | handlerExhausted topic delivered error =>
      [("delivered", toString delivered), ("error", error.message), ("topic", topic)]
  | handlerFailed topic delivered maxDeliveries error =>
      [("delivered", toString delivered), ("error", error.message),
        ("max_deliveries", toString maxDeliveries), ("topic", topic)]
  | deadLetterFailed topic deadLetterTopic error =>
      [("dead_letter_topic", deadLetterTopic), ("error", error.message), ("topic", topic)]

end Notice

/-- A notice with the moment of its report. -/
structure JournalEntry where
  moment : Nat
  notice : Notice
  deriving DecidableEq, Repr

end ChangeDispatch
