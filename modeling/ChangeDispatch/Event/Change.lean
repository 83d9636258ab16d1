import ChangeDispatch.Config
import ChangeDispatch.RequestId.Basic
import ChangeDispatch.Timestamp.Basic

/-!
# Change events

A change event names a workspace, the transition that is asked for, and who asked for
it. `ChangeEvent.validate` accepts the events whose name is a label of a domain name and
whose owner is not blank; nothing else about the event matters to it.
-/
namespace ChangeDispatch

/-- What became of a requested change. -/
inductive AckStatus where
  | created
  | updated
  | deleted
  | failed
  /-- A status that this version does not know. -/
  | unknown
  deriving DecidableEq, Repr

namespace AckStatus

def name : AckStatus → String
  | created => "created"
  | updated => "updated"
  | deleted => "deleted"
  | failed => "failed"
  | unknown => "unknown"

def isSuccess : AckStatus → Bool
  | created | updated | deleted => true
  | failed | unknown => false

end AckStatus

/-- The transition that is asked for. -/
inductive ChangeStatus where
  | creating
  | updating
  | deleting
  deriving DecidableEq, Repr

namespace ChangeStatus

def name : ChangeStatus → String
  | creating => "creating"
  | updating => "updating"
  | deleting => "deleting"

/-- What a reconciler reports when it has made the change. -/
def expectedOutcome : ChangeStatus → AckStatus
  | creating => .created
  | updating => .updated
  | deleting => .deleted

end ChangeStatus

/-- A request to change one workspace. -/
structure ChangeEvent where
  name : String
  status : ChangeStatus
  /-- When the request was made. -/
  timestamp : Timestamp
  owner : String
  /-- The cloud account that the workspace lives in, where it is known. -/
  account : Option String
  /-- Tells this request from all others; a reconciler echoes it. -/
  requestId : Option RequestId
  deriving DecidableEq, Repr

namespace ChangeEvent

/-- A character that a workspace name may hold. -/
def isNameChar (c : Char) : Bool :=
  ('a' ≤ c && c ≤ 'z') || ('0' ≤ c && c ≤ '9') || c == '-'

/-- Check a workspace name. -/
def validateName (name : String) : Except DispatchError Unit :=
  if name.isEmpty then .error (.invalidEvent "workspace name is empty")
  else if maxNameLength < name.utf8ByteSize then
    .error (.invalidEvent
      (s!"workspace name exceeds {maxNameLength} characters: " ++ toString name.utf8ByteSize))
  else match name.toList.find? (fun c => !isNameChar c) with
    | some c => .error (.invalidEvent ("invalid character in workspace name: " ++ Text.quotedChar c))
    | none =>
      if name.toList.head? = some '-' ∨ name.toList.getLast? = some '-' then
        .error (.invalidEvent s!"workspace name cannot start or end with hyphen: {name}")
      else .ok ()

/-- Check that the owner holds more than blanks. -/
def validateOwner (owner : String) : Except DispatchError Unit :=
  if owner.toList.all Text.isBlank then .error (.invalidEvent "owner is empty") else .ok ()

/-- Check an event before it is queued. -/
def validate (e : ChangeEvent) : Except DispatchError Unit := do
  validateName e.name
  validateOwner e.owner

end ChangeEvent

end ChangeDispatch
