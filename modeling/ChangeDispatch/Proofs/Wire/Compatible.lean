import ChangeDispatch.Proofs.Wire.RoundTrip

/-!
# Payloads of other versions

A newer version of the other side may order members differently, say more in any of the records,
and report statuses that this version does not know. Its payloads are read as what they say here:
members under unknown names are passed over whatever their values, and an unknown status is no
success. What is not tolerated is a known member that is written twice. All names are read as
strings, also those of unknown members: the escape of half a surrogate pair is tolerated in a value
that is passed over, but not in a name.
-/
namespace ChangeDispatch

open Json (Accepts Blank Bytes Delimits IsValue Member Reader Reads Takes Whole)
open Json.Shape (IsAnyObject)

/-- Blanks may stand around the text of a payload. -/
def Around (texts : Bytes → Prop) (payload : Bytes) : Prop :=
  ∃ before text after, Blank before ∧ Blank after ∧ texts text ∧
    payload = before ++ (text ++ after)

namespace Json

section Document

variable {α : Type} {read : Reader α} {before text after : Bytes} {value : α}

theorem Blank.delimits {bs : Bytes} (h : Blank bs) : Delimits bs := by
  have closed : Delimits (bs ++ []) := .blank h trivial
  rwa [List.append_nil] at closed

theorem Takes.document (h : Takes read text value) (blank : Blank before) (blank' : Blank after) :
    document read (before ++ (text ++ after)) = .ok value := by
  simp only [Json.document, h before after blank blank'.delimits, skipSpace_of_blank blank', bind,
    Except.bind]
  rfl

theorem Whole.document_error (whole : Whole read) (refuses : ¬Accepts read text)
    (blank : Blank before) (blank' : Blank after) :
    ∃ problem, document read (before ++ (text ++ after)) = .error problem := by
  cases found : document read (before ++ (text ++ after)) with
  | error problem => exact ⟨problem, rfl⟩
  | ok value =>
    obtain ⟨⟨x, r⟩, taken, -⟩ := ok_of_bind found
    rw [whole.blanks _ blank] at taken
    exact absurd ⟨after, x, r, blank'.delimits, taken⟩ refuses

end Document

end Json

/-- What may be read of an encoding that is arranged in another way. -/
structure ForwardCompatible {α : Type} (timestamp : α → Timestamp) (asRead : α → α)
    (arranged : α → Bytes → Prop) (repeats : Bytes → Prop) (write : α → Bytes)
    (ofPayload : Bytes → Except DispatchError α) : Prop where
  /-- The encoding is one of the arrangements. -/
  written : ∀ x, arranged x (write x)
  /-- All arrangements are values of the grammar. -/
  grammatical : ∀ x text, arranged x text → IsValue text
  /-- What is encoded is read as itself, unless its moment has no written form of its own. -/
  faithful : ∀ x, asRead x = x ↔ ¬(timestamp x).WithinMinute
  /-- Each arrangement is decoded to the same. -/
  decoded : ∀ x payload, Around (arranged x) payload → ofPayload payload = .ok (asRead x)
  /-- No value in which a known member is written twice is decoded. -/
  refused : ∀ payload, Around repeats payload →
    ∃ message, ofPayload payload = .error (.decode message)

namespace ChangeEvent

theorem decoded (e : ChangeEvent) {payload : Bytes} (h : Around e.IsArrangement payload) :
    ofPayload payload = .ok e.asRead := by
  obtain ⟨before, text, after, blank, blank', arranged, rfl⟩ := h
  have takes := (e.readsText text arranged).takes whole
  rw [ofPayload, decode, takes.document blank blank']
  rfl

theorem refused {payload : Bytes} (h : Around shape.Repeats payload) :
    ∃ message, ofPayload payload = .error (.decode message) := by
  obtain ⟨before, text, after, blank, blank', repeats, rfl⟩ := h
  obtain ⟨problem, found⟩ := whole.document_error (lawful.refuses repeats) blank blank'
  refine ⟨problem.message, ?_⟩
  rw [ofPayload, decode, found]
  rfl

end ChangeEvent

namespace AckEvent

/-- A member is written twice, of the acknowledgment or of a record in it. -/
def Repeats (text : Bytes) : Prop :=
  shape.Repeats text ∨ ∃ ms, IsAnyObject ms text ∧ ∃ m ∈ ms,
    (Json.Text.Names "workspace_event" m.key ∧ ChangeEvent.shape.Repeats m.value) ∨
    (Json.Text.Names "role" m.key ∧ RoleDetails.shape.Repeats m.value) ∨
    (Json.Text.Names "object_store" m.key ∧ ObjectStoreDetails.shape.Repeats m.value) ∨
    (Json.Text.Names "block_store" m.key ∧ BlockStoreDetails.shape.Repeats m.value)

/-- The records in an acknowledgment that is accepted are accepted. -/
theorem accepts_parts {ms : List Member} {text : Bytes} (object : IsAnyObject ms text)
    (accepts : Accepts read text) {m : Member} (member : m ∈ ms) :
    (Json.Text.Names "workspace_event" m.key → Accepts ChangeEvent.read m.value) ∧
    (Json.Text.Names "role" m.key → Accepts (Json.optional RoleDetails.shape.read) m.value) ∧
    (Json.Text.Names "object_store" m.key →
      Accepts (Json.optional ObjectStoreDetails.shape.read) m.value) ∧
    (Json.Text.Names "block_store" m.key →
      Accepts (Json.optional BlockStoreDetails.shape.read) m.value) := by
  have each := (lawful.taken object accepts).accepted m member
  obtain ⟨event, each⟩ := List.forall_mem_cons.mp each
  obtain ⟨-, each⟩ := List.forall_mem_cons.mp each
  obtain ⟨-, each⟩ := List.forall_mem_cons.mp each
  obtain ⟨role, each⟩ := List.forall_mem_cons.mp each
  obtain ⟨objects, each⟩ := List.forall_mem_cons.mp each
  obtain ⟨blocks, -⟩ := List.forall_mem_cons.mp each
  refine ⟨fun h => ?_, fun h => ?_, fun h => ?_, fun h => ?_⟩
  · obtain ⟨d, accepts⟩ := event h
    exact .of_andThen (fun v => { d with event := some v }) accepts
  · obtain ⟨d, accepts⟩ := role h
    exact .of_andThen (fun v => { d with role := some v }) accepts
  · obtain ⟨d, accepts⟩ := objects h
    exact .of_andThen (fun v => { d with objectStore := some v }) accepts
  · obtain ⟨d, accepts⟩ := blocks h
    exact .of_andThen (fun v => { d with blockStore := some v }) accepts

theorem refuses {text : Bytes} (h : Repeats text) : ¬Accepts read text := by
  intro accepts
  rcases h with repeats | ⟨ms, object, m, member, part⟩
  · exact lawful.refuses repeats accepts
  obtain ⟨event, role, objects, blocks⟩ := accepts_parts object accepts member
  rcases part with ⟨named, repeats⟩ | ⟨named, repeats⟩ | ⟨named, repeats⟩ | ⟨named, repeats⟩
  · exact ChangeEvent.lawful.refuses repeats (event named)
  · exact RoleDetails.lawful.refuses repeats
      ((role named).of_optional repeats.isValue repeats.opens)
  · exact ObjectStoreDetails.lawful.refuses repeats
      ((objects named).of_optional repeats.isValue repeats.opens)
  · exact BlockStoreDetails.lawful.refuses repeats
      ((blocks named).of_optional repeats.isValue repeats.opens)

theorem decoded (a : AckEvent) {status : String} (named : AckStatus.ofName status = a.status)
    {payload : Bytes} (h : Around (a.IsArrangementWith status) payload) :
    ofPayload payload = .ok a.asRead := by
  obtain ⟨before, text, after, blank, blank', arranged, rfl⟩ := h
  have takes := (a.readsText named arranged).takes lawful.read
  rw [ofPayload, decode, takes.document blank blank']
  rfl

theorem refused {payload : Bytes} (h : Around Repeats payload) :
    ∃ message, ofPayload payload = .error (.decode message) := by
  obtain ⟨before, text, after, blank, blank', repeats, rfl⟩ := h
  obtain ⟨problem, found⟩ := lawful.read.document_error (refuses repeats) blank blank'
  refine ⟨problem.message, ?_⟩
  rw [ofPayload, decode, read, found]
  rfl

end AckEvent

theorem AckStatus.ofName_unknown {status : String}
    (h : status ∉ ["created", "updated", "deleted", "failed"]) : ofName status = unknown := by
  have missing : known.find? (fun s => s.name == status) = none := by
    rw [List.find?_eq_none]
    intro s member same
    obtain rfl : s.name = status := by simpa using same
    revert member h
    cases s <;> decide
  rw [ofName, missing]
  rfl

/-- Payloads of another version are decoded as what this version knows of them. -/
theorem payload_forwardCompatible :
    ForwardCompatible ChangeEvent.timestamp ChangeEvent.asRead ChangeEvent.IsArrangement
        ChangeEvent.shape.Repeats ChangeEvent.write ChangeEvent.ofPayload ∧
      ForwardCompatible (fun a => a.event.timestamp) AckEvent.asRead AckEvent.IsArrangement
        AckEvent.Repeats AckEvent.write AckEvent.ofPayload ∧
      (∀ (a : AckEvent) (status : String) (payload : Bytes),
        status ∉ ["created", "updated", "deleted", "failed"] →
        Around (a.IsArrangementWith status) payload →
          AckEvent.ofPayload payload = .ok { a.asRead with status := .unknown }) ∧
      AckStatus.unknown.isSuccess = false := by
  refine ⟨?_, ?_, fun a status payload unknown arranged => ?_, rfl⟩
  · exact ⟨ChangeEvent.written, ChangeEvent.isValue, ChangeEvent.asRead_eq_self_iff,
      fun e _ => e.decoded, fun _ => ChangeEvent.refused⟩
  · exact ⟨AckEvent.written, fun a _ => a.isValue, AckEvent.asRead_eq_self_iff,
      fun a _ => a.decoded a.status.ofName_name, fun _ => AckEvent.refused⟩
  · -- The name in the text is read as the status that it stands for, not as the one it replaces.
    have named : AckStatus.ofName status = .unknown := AckStatus.ofName_unknown unknown
    exact AckEvent.decoded { a with status := .unknown } named arranged

/-- In the first payload the members stand in another order, one of them is unknown, the absent
error is `null`, the status is of a newer version, and there are blanks around the whole. In the
second the status is written twice. -/
theorem quarantined_decoded :
    AckEvent.ofPayload (Json.utf8
        (" \x7b\"status\":\"quarantined\",\"error\":null,\"load\":[1e999],\"workspace_event\":" ++
          "\x7b\"name\":\"ws-1\",\"status\":\"creating\"," ++
          "\"timestamp\":\"1970-01-01T00:00:00Z\",\"owner\":\"alice\"\x7d\x7d\n"))
      = .ok { event := ⟨"ws-1", .creating, .ofNanos64 0 (by decide), "alice", none, none⟩
              status := .unknown } ∧
      ∃ message, AckEvent.ofPayload (Json.utf8 "\x7b\"status\":1,\"status\":2\x7d")
        = .error (.decode message) := by
  let a : AckEvent :=
    { event := ⟨"ws-1", .creating, .ofNanos64 0 (by decide), "alice", none, none⟩
      status := .created }
  have exponent : Json.IsExponent [0x65, 0x39, 0x39, 0x39] :=
    .inr ⟨0x65, [], [0x39, 0x39, 0x39], by decide, by decide,
      ⟨List.cons_ne_nil _ _, List.all_eq_true.mp rfl⟩, rfl⟩
  have number : Json.IsNumber ([] ++ ([0x31] ++ ([] ++ [0x65, 0x39, 0x39, 0x39]))) :=
    .mk (by decide) ⟨⟨List.cons_ne_nil _ _, List.all_eq_true.mp rfl⟩, by decide⟩ (.inl rfl) exponent
  have list : IsValue [0x5b, 0x31, 0x65, 0x39, 0x39, 0x39, 0x5d] :=
    .list (.next .nil .nil (.done .nil)) (List.forall_mem_singleton.mpr (.number number))
  have load : Json.Unknown ((a.entries "quarantined").map Json.Entry.name)
      (.written ("load", Json.utf8 "[1e999]")) := ⟨"load", by decide, .written _, list⟩
  have filled : Json.Filled (a.entries "quarantined")
      [.written ("workspace_event", a.event.write),
       .written ("status", Json.Text.write "quarantined"),
       .written ("error", Json.utf8 "null")] :=
    .present (.written _) a.event.written <| .present (.written _) (.write _) <|
      .present (.written _) rfl <| .absent rfl <| .absent rfl <| .absent rfl .nil
  have text := Json.Members.written true
    [("status", Json.Text.write "quarantined"), ("error", Json.utf8 "null"),
     ("load", Json.utf8 "[1e999]"), ("workspace_event", a.event.write)]
  have arranged : Around (a.IsArrangementWith "quarantined") _ :=
    ⟨[0x20], _, [0x0a], by decide, by decide,
      ⟨_, _, _, filled, List.forall_mem_singleton.mpr load, List.perm_append_singleton _ _, _, text,
        rfl⟩, rfl⟩
  have decoded := payload_forwardCompatible.2.2.1 a "quarantined" _ (by decide) arranged
  have named : Json.Text.Names "status" ((Json.utf8 "status").flatMap Json.Text.writeByte) :=
    .written _
  have digit (n : Nat) : IsValue (Json.writeNatural n) := .number (Json.isNumber_writeNatural n)
  have object : IsAnyObject (["1", "2"].map fun n => .written ("status", Json.utf8 n)) _ :=
    ⟨⟨_, Json.Members.written true [("status", Json.utf8 "1"), ("status", Json.utf8 "2")], rfl⟩,
      by simp [Json.Member.written, named.isBody], by
        simpa [Json.Member.written] using ⟨digit 1, digit 2⟩⟩
  have repeated : Around AckEvent.Repeats _ :=
    ⟨[], _, [], .nil, .nil, .inl ⟨_, object, _, List.mem_cons_of_mem _ List.mem_cons_self, _, _,
      .refl _, named, named⟩, rfl⟩
  refine ⟨Eq.trans (congrArg AckEvent.ofPayload ?_) decoded, ?_⟩
  · decide +kernel
  · exact payload_forwardCompatible.2.1.refused _ repeated

/-- The first payload is an encoding before which a member was inserted whose name is the escape of
half a surrogate pair, and it is refused; without this member it is decoded. The second payload is
the encoding of another acknowledgment than the one that is decoded. -/
theorem unreadable_refused :
    let event : ChangeEvent := ⟨"ws-1", .creating, .ofNanos64 0 (by decide), "alice", none, none⟩
    let members := "\"workspace_event\":\x7b\"name\":\"ws-1\",\"status\":\"creating\"," ++
      "\"timestamp\":\"1970-01-01T00:00:00Z\",\"owner\":\"alice\"\x7d,\"status\":\"created\"\x7d"
    AckEvent.write { event, status := .created } = Json.utf8 ("\x7b" ++ members) ∧
      AckEvent.ofPayload (Json.utf8 ("\x7b" ++ members)) = .ok { event, status := .created } ∧
      AckEvent.ofPayload (Json.utf8 ("\x7b\"\\ud800\":0," ++ members)) =
        .error (.decode "unexpected end of hex escape") ∧
      AckEvent.ofPayload (AckEvent.write { event := leapEvent, status := .created }) ≠
        .ok { event := leapEvent, status := .created } := by
  refine ⟨by decide +kernel, by decide +kernel, by decide +kernel, ?_⟩
  rw [AckEvent.ofPayload_write]
  decide

end ChangeDispatch
