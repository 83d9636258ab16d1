import ChangeDispatch.Event.Change
import ChangeDispatch.RequestId.Fresh

/-!
# Issuing change events

A new event is stamped with the reading of a wall clock, which may be stepped back. The
issuer keeps the latest moment it has handed out as a floor, so the stamps of successive
events never decrease.
-/
namespace ChangeDispatch

/-- The latest moment handed out, in nanoseconds since the epoch. -/
structure IssueFloor where
  nanos : Int
  fits : Timestamp.FitsWord64 nanos

namespace IssueFloor

/-- Before the first event every reading is above the floor. -/
def initial : IssueFloor := ⟨Int64.minValue.toInt, by decide⟩

/-- Raise the floor to a reading of the clock. -/
def raise (floor : IssueFloor) (reading : Int) (h : Timestamp.FitsWord64 reading) : IssueFloor :=
  if floor.nanos ≤ reading then ⟨reading, h⟩ else floor

/-- The reading, or the floor if that is later. -/
def notBefore (now : Timestamp) (floor : IssueFloor) : Timestamp :=
  match now.nanos64? with
  | some n => if n < floor.nanos then Timestamp.ofNanos64 floor.nanos floor.fits else now
  | none => now

/-- The stamp for a reading of the clock, and the floor for the next one. A reading
outside the range of the floor is used as it is. -/
def stamp (floor : IssueFloor) (now : Timestamp) : Timestamp × IssueFloor :=
  if h : Timestamp.FitsWord64 now.toNanos then
    (notBefore now floor, floor.raise now.toNanos h)
  else (now, floor)

end IssueFloor

/-- What a new event is asked to say. -/
structure ChangeRequest where
  name : String
  status : ChangeStatus
  owner : String
  account : Option String
  deriving Repr

namespace ChangeRequest

/-- The event of a request, with its stamp and identifier. -/
def event (r : ChangeRequest) (timestamp : Timestamp) (id : RequestId) : ChangeEvent :=
  { name := r.name, status := r.status, timestamp, owner := r.owner, account := r.account,
    requestId := some id }

/-- Issue one event for each request, in order, each with a reading of the clock and a
fresh identifier. -/
def issue (floor : IssueFloor) : List (ChangeRequest × Timestamp × RequestId) → List ChangeEvent
  | [] => []
  | (request, now, id) :: rest =>
    let (timestamp, floor) := floor.stamp now
    request.event timestamp id :: issue floor rest

end ChangeRequest

/-- No stamp is earlier than the one before it. -/
def stampsAscend : List ChangeEvent → Bool
  | a :: b :: rest => a.timestamp.toNanos ≤ b.timestamp.toNanos && stampsAscend (b :: rest)
  | _ => true

end ChangeDispatch
