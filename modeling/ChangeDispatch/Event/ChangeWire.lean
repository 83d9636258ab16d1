import ChangeDispatch.Event.Change
import ChangeDispatch.Json.Record
import ChangeDispatch.RequestId.Reading
import ChangeDispatch.Timestamp.Reading
import ChangeDispatch.Timestamp.Written

/-!
# The wire form of a change event

One record with its fields in the order of their declaration. Options that are absent
are left out when an event is written; when one is read they may also be `null`.
-/
namespace ChangeDispatch

open Json (Bytes Reader Problem RecordField Shape)

namespace ChangeStatus

def all : List ChangeStatus := [creating, updating, deleting]

/-- The status of a name. -/
def ofName (name : String) : Except Problem ChangeStatus :=
  match all.find? (fun s => s.name == name) with
  | some status => .ok status
  | none => .error (.unknownVariant name (all.map ChangeStatus.name))

def read : Reader ChangeStatus := Json.variant ofName

def write (s : ChangeStatus) : Bytes := Json.Text.write s.name

end ChangeStatus

/-- A moment in its written form. -/
def Timestamp.readJson : Reader Timestamp :=
  Json.interpreted "an RFC 3339 formatted date and time string" fun s =>
    (Timestamp.read s).mapError fun defect => .malformed defect.message

/-- An identifier in one of its spellings. -/
def RequestId.readJson : Reader RequestId :=
  Json.interpreted "a formatted UUID string" fun s =>
    (RequestId.read s).mapError fun defect => .malformed ("UUID parsing failed: " ++ defect.message)

namespace ChangeEvent

/-- The fields of an event that have been read so far. -/
structure Draft where
  name : Option String := none
  status : Option ChangeStatus := none
  timestamp : Option Timestamp := none
  owner : Option String := none
  account : Option (Option String) := none
  requestId : Option (Option RequestId) := none

namespace Draft

def fields : List (RecordField Draft) :=
  [{ name := "name", required := true, isSet := fun d => d.name.isSome,
     read := fun d bs => do
       let (v, rest) ← Json.string bs
       return ({ d with name := some v }, rest) },
   { name := "status", required := true, isSet := fun d => d.status.isSome,
     read := fun d bs => do
       let (v, rest) ← ChangeStatus.read bs
       return ({ d with status := some v }, rest) },
   { name := "timestamp", required := true, isSet := fun d => d.timestamp.isSome,
     read := fun d bs => do
       let (v, rest) ← Timestamp.readJson bs
       return ({ d with timestamp := some v }, rest) },
   { name := "owner", required := true, isSet := fun d => d.owner.isSome,
     read := fun d bs => do
       let (v, rest) ← Json.string bs
       return ({ d with owner := some v }, rest) },
   { name := "account", required := false, isSet := fun d => d.account.isSome,
     read := fun d bs => do
       let (v, rest) ← Json.optional Json.string bs
       return ({ d with account := some v }, rest) },
   { name := "request_id", required := false, isSet := fun d => d.requestId.isSome,
     read := fun d bs => do
       let (v, rest) ← Json.optional RequestId.readJson bs
       return ({ d with requestId := some v }, rest) }]

def finish (d : Draft) : Except Problem ChangeEvent := do
  let name ← Json.field "name" d.name
  let status ← Json.field "status" d.status
  let timestamp ← Json.field "timestamp" d.timestamp
  let owner ← Json.field "owner" d.owner
  return { name, status, timestamp, owner,
           account := d.account.getD none, requestId := d.requestId.getD none }

end Draft

def shape : Shape Draft ChangeEvent where
  name := "ChangeEvent"
  fields := Draft.fields
  start := {}
  finish := Draft.finish

def read : Reader ChangeEvent := shape.read

/-- The wire form of an event. -/
def write (e : ChangeEvent) : Bytes :=
  Json.writeObject
    [Json.always "name" (Json.Text.write e.name),
     Json.always "status" e.status.write,
     Json.always "timestamp" (Json.Text.write e.timestamp.written),
     Json.always "owner" (Json.Text.write e.owner),
     Json.whenSome "account" Json.Text.write e.account,
     Json.whenSome "request_id" (fun id => Json.Text.write id.written) e.requestId]

/-- The event that a payload holds. -/
def decode (payload : Bytes) : Except Problem ChangeEvent := Json.document read payload

/-- The event that a payload holds, with its problem as an error of the library. -/
def ofPayload (payload : Bytes) : Except DispatchError ChangeEvent :=
  (decode payload).mapError fun problem => .decode problem.message

end ChangeEvent

end ChangeDispatch
