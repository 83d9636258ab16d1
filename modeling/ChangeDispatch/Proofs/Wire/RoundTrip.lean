import ChangeDispatch.Proofs.Wire.Arrangements

/-!
# Events survive their wire form

An event is written as one of its arrangements, and a record is read from each of them. A
payload holds one such record, so decoding it gives the event that the arrangements are read as.
That is the event that was encoded, unless its moment is a leap second within a minute. Whether
the event would pass validation plays no part.
-/
namespace ChangeDispatch

open Json (Reads)

/-- A change event is read back from its record. -/
theorem ChangeEvent.reads (e : ChangeEvent) : Reads ChangeEvent.read e.write e.asRead :=
  e.readsText _ e.written

/-- An acknowledgment is read back from its record, the record of its event in it. -/
theorem AckEvent.reads (a : AckEvent) : Reads AckEvent.read a.write a.asRead :=
  a.readsText a.status.ofName_name a.written

theorem ChangeEvent.decode_write (e : ChangeEvent) : decode e.write = .ok e.asRead := by
  rw [decode, e.reads.document]

theorem ChangeEvent.ofPayload_write (e : ChangeEvent) : ofPayload e.write = .ok e.asRead := by
  rw [ofPayload, e.decode_write]
  rfl

theorem AckEvent.ofPayload_write (a : AckEvent) : ofPayload a.write = .ok a.asRead := by
  rw [ofPayload, decode, a.reads.document]
  rfl

/-- Encoding and decoding give back just those change events and acknowledgments whose moment has a
written form of its own: all but the leap seconds within a minute. -/
theorem payload_roundTrip :
    (∀ e : ChangeEvent, ChangeEvent.ofPayload e.write = .ok e.asRead ∧
      (ChangeEvent.ofPayload e.write = .ok e ↔ ¬e.timestamp.WithinMinute)) ∧
    ∀ a : AckEvent, AckEvent.ofPayload a.write = .ok a.asRead ∧
      (AckEvent.ofPayload a.write = .ok a ↔ ¬a.event.timestamp.WithinMinute) := by
  constructor
  · intro e
    refine ⟨e.ofPayload_write, ?_⟩
    rw [e.ofPayload_write, Except.ok.injEq]
    exact e.asRead_eq_self_iff
  · intro a
    refine ⟨a.ofPayload_write, ?_⟩
    rw [a.ofPayload_write, Except.ok.injEq]
    exact a.asRead_eq_self_iff

/-- An event at a leap second after the thirtieth second of a minute. -/
def leapEvent : ChangeEvent where
  name := "ws-1"
  status := .creating
  timestamp := ⟨30, 1333333333, by decide, by decide⟩
  owner := "alice"
  account := none
  requestId := none

/-- The event is decoded as one a third of a second after the next second. -/
theorem leapEvent_decoded :
    ChangeEvent.ofPayload leapEvent.write ≠ .ok leapEvent ∧
      ChangeEvent.ofPayload leapEvent.write =
        .ok { leapEvent with timestamp := ⟨31, 333333333, by decide, by decide⟩ } := by
  have other : leapEvent.asRead =
      { leapEvent with timestamp := ⟨31, 333333333, by decide, by decide⟩ } := by decide
  rw [leapEvent.ofPayload_write, other]
  exact ⟨by decide, rfl⟩

end ChangeDispatch
