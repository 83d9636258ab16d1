import ChangeDispatch.Event.Ack

/-!
# The table of pending waits

One entry for each wait that may still get an acknowledgment, under the identifier of its
request. Entries carry serial numbers in the order of registration. An acknowledgment
with an identifier belongs to the entry under it; one without belongs to the earliest
entry for its workspace.
-/
namespace ChangeDispatch

/-- What a wait is registered under: the identifier of its request, or, for a request
without one, a key of its own that no acknowledgment carries. -/
inductive WaitKey where
  | request (id : RequestId)
  | own (serial : Nat)
  deriving DecidableEq, Repr

/-- One pending wait. -/
structure PendingEntry where
  key : WaitKey
  workspace : String
  /-- The number of the registration, which is also that of its waiter. -/
  serial : Nat
  deriving DecidableEq, Repr

structure PendingTable where
  nextSerial : Nat := 0
  entries : List PendingEntry := []
  closed : Bool := false
  deriving DecidableEq, Repr

namespace PendingTable

/-- The entry under a key. -/
def find? (t : PendingTable) (key : WaitKey) : Option PendingEntry :=
  t.entries.find? (fun e => e.key == key)

/-- Add an entry. -/
def insert (t : PendingTable) (requestId : Option RequestId) (workspace : String) :
    Except DispatchError (PendingEntry × PendingTable) :=
  if t.closed then .error .closed
  else
    let key := requestId.elim (.own t.nextSerial) WaitKey.request
    match requestId, t.find? key with
    | some id, some _ => .error (.invalidEvent
        ("an acknowledgment wait is already registered for request " ++ id.written))
    | _, _ =>
      let entry : PendingEntry := ⟨key, workspace, t.nextSerial⟩
      .ok (entry, { t with nextSerial := t.nextSerial + 1, entries := t.entries ++ [entry] })

/-- Take the entry under a key out of the table. -/
def remove (t : PendingTable) (key : WaitKey) : Option PendingEntry × PendingTable :=
  (t.find? key, { t with entries := t.entries.filter (fun e => e.key != key) })

/-- The entry with the lowest serial number. -/
def earliest : List PendingEntry → Option PendingEntry
  | [] => none
  | e :: es =>
    match earliest es with
    | none => some e
    | some f => if f.serial < e.serial then some f else some e

/-- The key of the entry that an acknowledgment belongs to. -/
def matchKey? (t : PendingTable) (ack : AckEvent) : Option WaitKey :=
  match ack.event.requestId with
  | some id => some (.request id)
  | none => (earliest (t.entries.filter fun e => e.workspace == ack.workspace)).map (·.key)

/-- Take the entry that an acknowledgment belongs to out of the table. -/
def takeMatch (t : PendingTable) (ack : AckEvent) : Option PendingEntry × PendingTable :=
  match t.matchKey? ack with
  | some key => t.remove key
  | none => (none, t)

/-- Refuse new entries and drop those that there are. -/
def close (t : PendingTable) : List PendingEntry × PendingTable :=
  (t.entries, { t with entries := [], closed := true })

end PendingTable

end ChangeDispatch
