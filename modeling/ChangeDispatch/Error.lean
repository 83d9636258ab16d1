import ChangeDispatch.Duration
import ChangeDispatch.Text.Quoted

/-!
# Causes of failure

`TransportError` is what the broker connection reports, `DispatchError` what the
library reports to its callers. Each constructor is one cause; its wording is in
`message`, and `DispatchError.isRetryable` marks the causes that may pass by themselves.
-/
namespace ChangeDispatch

inductive TransportError where
  /-- The connection could not be made or was lost. -/
  | connection (detail : String)
  /-- A publish was refused or not confirmed. -/
  | publish (detail : String)
  /-- A subscription could not be made. -/
  | subscribe (detail : String)
  /-- A settlement did not reach the broker. -/
  | acknowledge (detail : String)
  /-- A subscription failed while receiving. -/
  | receive (detail : String)
  | closed
  deriving DecidableEq, Repr

def TransportError.message : TransportError → String
  | connection detail => s!"Transport connection error: {detail}"
  | publish detail => s!"Transport publish error: {detail}"
  | subscribe detail => s!"Transport subscribe error: {detail}"
  | acknowledge detail => s!"Transport acknowledge error: {detail}"
  | receive detail => s!"Transport receive error: {detail}"
  | closed => "Transport is closed"

inductive DispatchError where
  /-- A payload could not be written. -/
  | encoding (detail : String)
  | transport (cause : TransportError)
  /-- The queue stayed full for the whole wait. -/
  | queueFull (capacity : Nat) (waited : Duration)
  /-- No acknowledgment arrived within the wait. -/
  | timeout (workspace : String) (waited : Duration)
  /-- An inbound payload could not be read. -/
  | decode (detail : String)
  | invalidEvent (detail : String)
  | configuration (detail : String)
  /-- The caller cancelled the wait. -/
  | cancelled
  | closed
  deriving DecidableEq, Repr

namespace DispatchError

def message : DispatchError → String
  | encoding detail => s!"Encoding error: {detail}"
  | transport cause => cause.message
  | queueFull capacity waited =>
      s!"Dispatch queue full (capacity {capacity}) after waiting " ++ waited.text
  | timeout workspace waited =>
      s!"No acknowledgment for workspace '{workspace}' within " ++ waited.text
  | decode detail => s!"Decode error: {detail}"
  | invalidEvent detail => s!"Invalid change event: {detail}"
  | configuration detail => s!"Configuration error: {detail}"
  | cancelled => "Wait for acknowledgment was cancelled"
  | closed => "Publisher is closed"

/-- Running the whole operation again later may succeed. -/
def isRetryable : DispatchError → Bool
  | queueFull .. | timeout .. | transport _ => true
  | _ => false

end DispatchError

end ChangeDispatch
