import ChangeDispatch.Wait.Pending

/-!
# Waiters

A waiter is the handle of one registered wait. It has a slot, which is empty until the
acknowledgment is put into it or the entry of the wait is dropped from the table. The
handle may outlive its entry. Letting go of a handle removes the entry under its key.
-/
namespace ChangeDispatch

/-- What a waiter has got. -/
inductive Slot where
  | empty
  | filled (ack : AckEvent)
  /-- The entry was dropped, so no acknowledgment can come any more. -/
  | closed
  deriving DecidableEq, Repr

structure Waiter where
  serial : Nat
  key : WaitKey
  workspace : String
  /-- The first moment at which the wait is over. -/
  deadline : Nat
  timeout : Duration
  slot : Slot := .empty
  deriving DecidableEq, Repr

/-- The pending table with the handles that are in use. -/
structure WaitRegistry where
  table : PendingTable := {}
  waiters : List Waiter := []
  deriving DecidableEq, Repr

namespace WaitRegistry

def waiter? (r : WaitRegistry) (serial : Nat) : Option Waiter :=
  r.waiters.find? (·.serial == serial)

/-- Register a wait for the acknowledgment of an event; its deadline runs from now on. -/
def register (r : WaitRegistry) (event : ChangeEvent) (now : Nat) (timeout : Duration) :
    Except DispatchError (Waiter × WaitRegistry) := do
  let (entry, table) ← r.table.insert event.requestId event.name
  let waiter : Waiter :=
    { serial := entry.serial, key := entry.key, workspace := event.name,
      deadline := now + timeout.ticks, timeout }
  return (waiter, { table, waiters := r.waiters ++ [waiter] })

/-- Put something into the slot of a waiter, if that is still empty. -/
def fill (r : WaitRegistry) (serial : Nat) (slot : Slot) : WaitRegistry :=
  { r with waiters := r.waiters.map fun w =>
      if w.serial == serial && w.slot == .empty then { w with slot } else w }

/-- The waiter of an entry can take an acknowledgment. -/
def canTake (r : WaitRegistry) (entry : PendingEntry) : Bool :=
  r.waiters.any fun w => w.serial == entry.serial && w.slot == .empty

/-- Let go of a waiter. -/
def release (r : WaitRegistry) (serial : Nat) : WaitRegistry :=
  match r.waiter? serial with
  | none => r
  | some waiter =>
    let (dropped, table) := r.table.remove waiter.key
    let r := { table, waiters := r.waiters.filter (·.serial != serial) }
    match dropped with
    | some entry => r.fill entry.serial .closed
    | none => r

/-- How the table receives an acknowledgment. -/
inductive Offer where
  /-- Put into the slot of the entry's waiter. -/
  | taken (entry : PendingEntry)
  /-- It belongs to an entry whose waiter is gone. -/
  | missed (entry : PendingEntry)
  | unmatched
  deriving DecidableEq, Repr

/-- Hand an acknowledgment to the wait that it belongs to. -/
def offer (r : WaitRegistry) (ack : AckEvent) : Offer × WaitRegistry :=
  match r.table.takeMatch ack with
  | (none, table) => (.unmatched, { r with table })
  | (some entry, table) =>
    let r := { r with table }
    if r.canTake entry then (.taken entry, r.fill entry.serial (.filled ack))
    else (.missed entry, r)

/-- Refuse new waits and fail those that are pending; the answer is their number. -/
def close (r : WaitRegistry) : Nat × WaitRegistry :=
  let (dropped, table) := r.table.close
  (dropped.length, dropped.foldl (fun r entry => r.fill entry.serial .closed) { r with table })

/-- How many waits may still get an acknowledgment. -/
def pendingCount (r : WaitRegistry) : Nat := r.table.entries.length

end WaitRegistry

end ChangeDispatch
