import ChangeDispatch.Event.Change

/-!
# The dispatch queue

A bounded buffer between many producers and one worker. A producer that finds the buffer
full stands in line; whenever a slot becomes free, the first in line has its event put
into the buffer at once and is told so later. A closed queue takes no new producers, but
those in line keep their places; when the receiver goes away, they are all refused.

Two things about the channel under the queue are taken for granted here. It gives free slots
to producers in the order in which they came. And it makes no difference that it gives the first
in line only the slot, so that the event is in the buffer when that producer is polled next:
the slot is no longer free for others, and the worker that finds nothing to receive meanwhile is
woken by the event. A producer whose slot was given to it and that is not polled before the
receiver goes away gets its event back from the channel; here the event counts as lost with the
buffer, and the producer as told of its acceptance.
-/
namespace ChangeDispatch

/-- An event with the number of the call that brought it. -/
structure Item where
  ticket : Nat
  event : ChangeEvent
  deriving DecidableEq, Repr

structure Queue where
  capacity : Nat
  /-- How long a producer stands in line. -/
  timeout : Duration
  /-- Accepted events that the worker has not received, the oldest first. -/
  buffer : List Item := []
  /-- Producers that stand in line, the first in front. -/
  blocked : List Item := []
  /-- Events that were taken from the line and whose producers have not been told. -/
  granted : List Item := []
  /-- New producers are let in. -/
  isOpen : Bool := true
  /-- The receiver is still there. -/
  receiving : Bool := true
  deriving DecidableEq, Repr

namespace Queue

/-- The most events that a queue can be made for. Three bits of a word of 64 are not for the
count of the free slots. To make a queue for more events panics. -/
def maxCapacity : Nat := UInt64.size / 8 - 1

/-- A queue for `capacity` events, at least one. -/
def ofCapacity (capacity : Nat) (timeout : Duration) : Queue :=
  { capacity := max capacity 1, timeout }

/-- How a queue receives an event. -/
inductive Offer where
  | accepted
  | refused
  | blocked
  deriving DecidableEq, Repr

/-- Bring an event: into the buffer, or else to the end of the line. -/
def offer (q : Queue) (item : Item) : Offer × Queue :=
  if !q.isOpen || !q.receiving then (.refused, q)
  else if q.blocked.isEmpty && q.buffer.length < q.capacity then
    (.accepted, { q with buffer := q.buffer ++ [item] })
  else (.blocked, { q with blocked := q.blocked ++ [item] })

/-- Let the first in line have a free slot. -/
def fillSlot (q : Queue) : Queue :=
  match q.blocked with
  | item :: blocked =>
    if q.buffer.length < q.capacity then
      { q with buffer := q.buffer ++ [item], blocked, granted := q.granted ++ [item] }
    else q
  | [] => q

/-- Receive the oldest event. -/
def take? (q : Queue) : Option (Item × Queue) :=
  match q.buffer with
  | [] => none
  | item :: buffer => some (item, { q with buffer }.fillSlot)

/-- What a producer that stood in line finds out. -/
def standing (q : Queue) (ticket : Nat) : Offer :=
  if q.blocked.any (·.ticket == ticket) then .blocked
  else if q.granted.any (·.ticket == ticket) then .accepted
  else .refused

/-- Tell a producer that its event was taken from the line. -/
def collect (q : Queue) (ticket : Nat) : Queue :=
  { q with granted := q.granted.filter (·.ticket != ticket) }

/-- Leave the line. -/
def withdraw (q : Queue) (ticket : Nat) : Queue :=
  { q with blocked := q.blocked.filter (·.ticket != ticket) }

/-- Let no new producers in; the answer is whether they were let in before. -/
def close (q : Queue) : Bool × Queue := (q.isOpen, { q with isOpen := false })

/-- The receiver goes away with what is in the buffer, and the line breaks up. -/
def stopReceiving (q : Queue) : Queue :=
  { q with receiving := false, buffer := [], blocked := [] }

/-- Nothing can be received any more. -/
def isDrained (q : Queue) : Bool :=
  !q.isOpen && q.buffer.isEmpty && q.blocked.isEmpty && q.granted.isEmpty

/-- The number of buffered events that an open queue reports; a closed one reports none. -/
def length (q : Queue) : Nat := if q.isOpen then q.buffer.length else 0

def isEmpty (q : Queue) : Bool := q.length == 0

end Queue

end ChangeDispatch
