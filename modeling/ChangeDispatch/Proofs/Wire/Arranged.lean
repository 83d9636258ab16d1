import Mathlib.Data.List.Forall2
import ChangeDispatch.Proofs.Wire.Once

/-!
# Records in any arrangement

The members of a record may stand in any order and among members of other names, and a value that
is absent may be left out or said to be `null`. `IsRecord` is the text of such an object. However
it is arranged, the draft of a record depends on the names that have been read and not on their
order, so the same record is read from each.
-/
namespace ChangeDispatch.Json

/-- What a record says under one of its names: the texts that the value has there, and whether its
member may be left out. -/
structure Entry where
  name : String
  texts : Bytes → Prop
  omittable : Prop

def Entry.always (name : String) (texts : Bytes → Prop) : Entry := ⟨name, texts, False⟩

/-- A value that is absent is left out or `null`. -/
def Entry.whenSome {β : Type} (name : String) (texts : β → Bytes → Prop) (value : Option β) :
    Entry where
  name := name
  texts := match value with
    | some v => texts v
    | none => (· = utf8 "null")
  omittable := value = none

/-- One member for each entry, but for those that are left out. -/
inductive Filled : List Entry → List Member → Prop
  | nil : Filled [] []
  | present {e : Entry} {es : List Entry} {m : Member} {ms : List Member} :
      Text.Names e.name m.key → e.texts m.value → Filled es ms → Filled (e :: es) (m :: ms)
  | absent {e : Entry} {es : List Entry} {ms : List Member} :
      e.omittable → Filled es ms → Filled (e :: es) ms

/-- A member under another name, with any value. Unlike a value, a name has to be Unicode. -/
def Unknown (names : List String) (m : Member) : Prop :=
  ∃ name, name ∉ names ∧ Text.Names name m.key ∧ IsValue m.value

/-- The text of an object that holds the members of a record and unknown ones, in any order. -/
def IsRecord (entries : List Entry) (text : Bytes) : Prop :=
  ∃ known others ms, Filled entries known ∧ (∀ m ∈ others, Unknown (entries.map Entry.name) m) ∧
    ms.Perm (known ++ others) ∧ IsObject ms text

theorem Unknown.other {names : List String} {m : Member} (h : Unknown names m) {name : String}
    (known : name ∈ names) : ¬Text.Names name m.key := by
  obtain ⟨other, unknown, named, -⟩ := h
  intro same
  exact unknown (named.unique same ▸ known)

namespace Filled

variable {es : List Entry} {ms : List Member}

theorem each (h : Filled es ms) :
    ∀ m ∈ ms, ∃ e ∈ es, Text.Names e.name m.key ∧ e.texts m.value := by
  induction h with
  | nil => exact nofun
  | present named text _ ih =>
    refine List.forall_mem_cons.mpr ⟨⟨_, List.mem_cons_self, named, text⟩, fun m member => ?_⟩
    obtain ⟨e, among, rest⟩ := ih m member
    exact ⟨e, List.mem_cons_of_mem _ among, rest⟩
  | absent _ _ ih =>
    intro m member
    obtain ⟨e, among, rest⟩ := ih m member
    exact ⟨e, List.mem_cons_of_mem _ among, rest⟩

theorem whole (h : Filled es ms) :
    ∀ e ∈ es, e.omittable ∨ ∃ m ∈ ms, Text.Names e.name m.key := by
  induction h with
  | nil => exact nofun
  | present named _ _ ih =>
    refine List.forall_mem_cons.mpr ⟨.inr ⟨_, List.mem_cons_self, named⟩, fun e among => ?_⟩
    exact (ih e among).imp_right fun ⟨m, member, rest⟩ => ⟨m, List.mem_cons_of_mem _ member, rest⟩
  | absent omittable _ ih => exact List.forall_mem_cons.mpr ⟨.inl omittable, ih⟩

theorem once (h : Filled es ms) (distinct : (es.map Entry.name).Nodup) :
    ms.Pairwise fun m m' => ∀ name, ¬(Text.Names name m.key ∧ Text.Names name m'.key) := by
  induction h with
  | nil => exact .nil
  | present named _ following ih =>
    obtain ⟨fresh, distinct⟩ := List.nodup_cons.mp distinct
    refine List.pairwise_cons.mpr ⟨fun m' member name ⟨first, again⟩ => fresh ?_, ih distinct⟩
    obtain ⟨e', among, named', -⟩ := following.each m' member
    rw [named.unique first, again.unique named']
    exact List.mem_map_of_mem among
  | absent _ _ ih => exact ih (List.nodup_cons.mp distinct).2

end Filled

/-- An arrangement of entries is a value of the grammar if all that they allow is. -/
theorem IsRecord.isValue {entries : List Entry} {text : Bytes} (h : IsRecord entries text)
    (each : ∀ e ∈ entries, ∀ v, e.texts v → IsValue v) : IsValue text := by
  obtain ⟨known, others, ms, filled, unknown, order, tail, members, rfl⟩ := h
  have both : ∀ m ∈ ms, IsBody m.key ∧ IsValue m.value := by
    intro m member
    rcases List.mem_append.mp (order.mem_iff.mp member) with member | member
    · obtain ⟨e, among, named, allowed⟩ := filled.each m member
      exact ⟨Text.Spells.isBody named, each e among _ allowed⟩
    · obtain ⟨name, -, named, value⟩ := unknown m member
      exact ⟨Text.Spells.isBody named, value⟩
  exact .object members (fun m member => (both m member).1) fun m member => (both m member).2

theorem Entry.isValue_of_whenSome {β : Type} {texts : β → Bytes → Prop}
    (each : ∀ v text, texts v text → IsValue text) (name : String) (value : Option β) (text : Bytes)
    (h : (whenSome name texts value).texts text) : IsValue text := by
  cases value with
  | some v => exact each v text h
  | none =>
    obtain rfl : text = utf8 "null" := h
    exact .word (by decide)

/-! ### What is written is an arrangement -/

/-- The member is the one of the entry, or left out. -/
def Entry.Writes (e : Entry) (member : Option (String × Bytes)) : Prop :=
  (∃ text, e.texts text ∧ member = some (e.name, text)) ∨ (e.omittable ∧ member = none)

theorem Entry.writes_always {name : String} {texts : Bytes → Prop} {text : Bytes}
    (h : texts text) : (always name texts).Writes (Json.always name text) :=
  .inl ⟨text, h, rfl⟩

theorem Entry.writes_whenSome {β : Type} {texts : β → Bytes → Prop} {write : β → Bytes}
    (h : ∀ v, texts v (write v)) (name : String) (value : Option β) :
    (whenSome name texts value).Writes (Json.whenSome name write value) := by
  cases value with
  | some v => exact .inl ⟨write v, h v, rfl⟩
  | none => exact .inr ⟨rfl, rfl⟩

/-- A member as it is written. -/
def Member.written (m : String × Bytes) : Member :=
  ⟨(utf8 m.1).flatMap Text.writeByte, m.2⟩

theorem Filled.written {entries : List Entry} {members : List (Option (String × Bytes))}
    (h : List.Forall₂ Entry.Writes entries members) :
    Filled entries ((members.filterMap id).map Member.written) := by
  induction h with
  | nil => exact .nil
  | cons writes _ ih =>
    rcases writes with ⟨text, allowed, rfl⟩ | ⟨omittable, rfl⟩
    · exact .present (.written _) allowed ih
    · exact .absent omittable ih

/-- Written members, from some place before one, the first or another. -/
def listed (first : Bool) : List (String × Bytes) → Bytes
  | [] => []
  | m :: ms => lead first ++ writeMembers (m :: ms)

theorem listed_cons (first : Bool) (key : String) (value : Bytes) (ms : List (String × Bytes)) :
    listed first ((key, value) :: ms)
      = lead first ++ (Text.write key ++ 0x3a :: (value ++ listed false ms)) := by
  cases ms with
  | nil => simp [listed, writeMembers]
  | cons m ms => simp [listed, writeMembers, lead]

theorem Members.written (first : Bool) (ms : List (String × Bytes)) :
    Members first (ms.map Member.written) (listed first ms ++ [0x7d]) := by
  induction ms generalizing first with
  | nil => exact .done .nil
  | cons m ms ih =>
    obtain ⟨key, value⟩ := m
    have next : Members first (Member.written (key, value) :: ms.map Member.written) _ :=
      .next .nil .nil .nil .nil (ih false)
    rw [listed_cons]
    simpa [Text.write, Member.written] using next

theorem IsRecord.written {entries : List Entry} {members : List (Option (String × Bytes))}
    (h : List.Forall₂ Entry.Writes entries members) : IsRecord entries (writeObject members) := by
  refine ⟨_, [], _, .written h, nofun, .of_eq (List.append_nil _).symm, _,
    Members.written true (members.filterMap id), ?_⟩
  rw [writeObject]
  cases members.filterMap id with
  | nil => rfl
  | cons m ms => rfl

/-! ### What is still to come after some names -/

/-- The members that are still to come when the names in `seen` have been read. -/
structure Ahead (entries : List Entry) (seen : List String) (ms : List Member) : Prop where
  /-- Each is of an entry that has not been read, or unknown. -/
  each : ∀ m ∈ ms,
    (∃ e ∈ entries, e.name ∉ seen ∧ Text.Names e.name m.key ∧ e.texts m.value) ∨
      Unknown (entries.map Entry.name) m
  /-- No two are of the same entry. -/
  once : ms.Pairwise fun m m' =>
    ∀ e ∈ entries, ¬(Text.Names e.name m.key ∧ Text.Names e.name m'.key)
  /-- An entry that is neither read nor to come may be left out. -/
  whole : ∀ e ∈ entries, e.omittable ∨ e.name ∈ seen ∨ ∃ m ∈ ms, Text.Names e.name m.key

/-- Nothing has been read of a record, so all of it is still to come. -/
theorem Ahead.start {entries : List Entry} {known others ms : List Member}
    (distinct : (entries.map Entry.name).Nodup) (filled : Filled entries known)
    (unknown : ∀ m ∈ others, Unknown (entries.map Entry.name) m)
    (order : ms.Perm (known ++ others)) : Ahead entries [] ms := by
  have other {e : Entry} (among : e ∈ entries) {m : Member} (member : m ∈ others) :
      ¬Text.Names e.name m.key := (unknown m member).other (List.mem_map_of_mem among)
  refine ⟨fun m member => ?_, ?_, fun e among => ?_⟩
  · rcases List.mem_append.mp (order.mem_iff.mp member) with member | member
    · obtain ⟨e, among, named, text⟩ := filled.each m member
      exact .inl ⟨e, among, List.not_mem_nil, named, text⟩
    · exact .inr (unknown m member)
  · refine (order.pairwise_iff fun h e among both => h e among both.symm).mpr ?_
    refine List.pairwise_append.mpr ⟨?_, ?_, fun m _ m' member e among both => ?_⟩
    · exact (filled.once distinct).imp fun h (e : Entry) _ => h e.name
    · exact List.pairwise_of_forall_mem_list fun m member m' _ e among both =>
        other among member both.1
    · exact other among member both.2
  · refine (filled.whole e among).imp_right fun ⟨m, member, named⟩ => .inr ⟨m, ?_, named⟩
    exact order.mem_iff.mpr (List.mem_append_left _ member)

namespace Ahead

variable {entries : List Entry} {seen : List String} {m : Member} {ms : List Member}

/-- After a member of an entry, its name has been read. -/
theorem next (h : Ahead entries seen (m :: ms)) {e : Entry} (named : Text.Names e.name m.key) :
    Ahead entries (e.name :: seen) ms := by
  obtain ⟨_, each⟩ := List.forall_mem_cons.mp h.each
  obtain ⟨apart, once⟩ := List.pairwise_cons.mp h.once
  refine ⟨fun m' member => ?_, once, fun e' among => ?_⟩
  · refine (each m' member).imp_left fun ⟨e', among, unread, named', text⟩ =>
      ⟨e', among, ?_, named', text⟩
    rw [List.mem_cons, not_or]
    refine ⟨fun same => apart m' member e' among ⟨?_, named'⟩, unread⟩
    rw [same]
    exact named
  · rcases h.whole e' among with omittable | read | ⟨m', member, named'⟩
    · exact .inl omittable
    · exact .inr (.inl (List.mem_cons_of_mem _ read))
    · rcases List.mem_cons.mp member with rfl | member
      · exact .inr (.inl (named'.unique named ▸ List.mem_cons_self))
      · exact .inr (.inr ⟨m', member, named'⟩)

/-- An unknown member is passed over. -/
theorem pass (h : Ahead entries seen (m :: ms)) (unknown : Unknown (entries.map Entry.name) m) :
    Ahead entries seen ms := by
  refine ⟨(List.forall_mem_cons.mp h.each).2, (List.pairwise_cons.mp h.once).2,
    fun e among => (h.whole e among).imp_right fun later => later.imp_right ?_⟩
  rintro ⟨m', member, named⟩
  rcases List.mem_cons.mp member with rfl | member
  · exact absurd named (unknown.other (List.mem_map_of_mem among))
  · exact ⟨m', member, named⟩

end Ahead

/-! ### Reading what is to come -/

/-- The reader takes the text, and blanks before it, for the value. -/
def Takes {α : Type} (read : Reader α) (text : Bytes) (value : α) : Prop :=
  ∀ blanks rest, Blank blanks → Delimits rest →
    read (blanks ++ (text ++ rest)) = .ok (value, rest)

section Takes

variable {α β : Type} {read : Reader α} {text : Bytes} {value : α}

theorem Reads.takes (h : Reads read text value) (whole : Whole read) : Takes read text value :=
  fun _ rest blank delimited => (whole.blanks _ blank).trans (h.reads rest delimited)

/-- A value that may be missing, in the texts of its entry. -/
theorem Takes.whenSome {texts : α → Bytes → Prop} (whole : Whole read)
    (reads : ∀ v text, texts v text → Reads read text v) (name : String) (value : Option α)
    (h : (Entry.whenSome name texts value).texts text) : Takes (optional read) text value := by
  cases value with
  | some v => exact (reads v text h).optional.takes whole.optional
  | none =>
    obtain rfl : text = utf8 "null" := h
    intro blanks rest blank _
    rw [whole.optional.blanks _ blank]
    rfl

theorem Takes.andThen (h : Takes read text value) (put : α → β) :
    Takes (fun bs => do let (v, rest) ← read bs; return (put v, rest)) text (put value) := by
  intro blanks rest blank delimited
  simp only [h blanks rest blank delimited, bind, Except.bind]
  rfl

end Takes

namespace Shape

variable {Draft α : Type} {shape : Shape Draft α} {entries : List Entry} {value : α}
  {draft : List String → Draft}

/-- The field is the one of the entry: in the draft of some names it is not set unless its name is
among them, and reading it adds its name. -/
structure Answers (draft : List String → Draft) (f : RecordField Draft) (e : Entry) : Prop where
  name : f.name = e.name
  unset : ∀ seen, f.name ∉ seen → f.isSet (draft seen) = false
  takes : ∀ seen text, e.texts text → Takes (f.read (draft seen)) text (draft (e.name :: seen))

/-- A field that reads one value and puts it into the draft. -/
theorem Answers.of {f : RecordField Draft} {e : Entry} {β : Type} {base : Reader β}
    {v : β} (put : Draft → β → Draft) (name : f.name = e.name)
    (unset : ∀ seen, f.name ∉ seen → f.isSet (draft seen) = false)
    (read : ∀ d, f.read d = fun bs => do let (v, rest) ← base bs; return (put d v, rest))
    (takes : ∀ text, e.texts text → Takes base text v)
    (after : ∀ seen, put (draft seen) v = draft (e.name :: seen)) : Answers draft f e where
  name := name
  unset := unset
  takes seen text h := by
    rw [read, ← after]
    exact (takes text h).andThen _

/-- The drafts of a record by the names that have been read. -/
structure Follows (shape : Shape Draft α) (entries : List Entry) (value : α)
    (draft : List String → Draft) : Prop where
  lawful : shape.Lawful
  start : shape.start = draft []
  fields : List.Forall₂ (Answers draft) shape.fields entries
  finish : ∀ seen, (∀ e ∈ entries, e.omittable ∨ e.name ∈ seen) →
    shape.finish (draft seen) = .ok value

namespace Follows

theorem names (h : Follows shape entries value draft) :
    shape.fields.map RecordField.name = entries.map Entry.name := by
  have same : List.Forall₂ (· = ·) (shape.fields.map RecordField.name)
      (entries.map Entry.name) := List.rel_map (fun _ _ answers => answers.name) h.fields
  rwa [List.forall₂_eq_eq_eq] at same

theorem field {fields : List (RecordField Draft)}
    (h : List.Forall₂ (Answers draft) fields entries) :
    ∀ e ∈ entries, ∃ f ∈ fields, Answers draft f e := by
  induction h with
  | nil => exact nofun
  | cons answers _ ih =>
    refine List.forall_mem_cons.mpr ⟨⟨_, List.mem_cons_self, answers⟩, fun e among => ?_⟩
    obtain ⟨f, member, answers⟩ := ih e among
    exact ⟨f, List.mem_cons_of_mem _ member, answers⟩

/-- The member of an entry adds its name to those that have been read. -/
theorem known (h : Follows shape entries value draft) {e : Entry} (among : e ∈ entries)
    {seen : List String} (unread : e.name ∉ seen) {b₂ b₃ text rest : Bytes} (blank₂ : Blank b₂)
    (blank₃ : Blank b₃) (allowed : e.texts text) (delimited : Delimits rest) :
    shape.member e.name (draft seen) (b₂ ++ 0x3a :: (b₃ ++ (text ++ rest)))
      = .ok (draft (e.name :: seen), rest) := by
  obtain ⟨f, member, answers⟩ := field h.fields e among
  have found := h.lawful.find? member
  have unset := answers.unset seen (answers.name ▸ unread)
  rw [answers.name] at found
  simp only [Shape.member, found, unset, colon_eq blank₂, bind, Except.bind]
  exact answers.takes seen text allowed b₃ rest blank₃ delimited

/-- An unknown member leaves the draft as it is. -/
theorem unknown (h : Follows shape entries value draft) {key : String}
    (unknown : key ∉ entries.map Entry.name) (d : Draft) {b₂ b₃ v rest : Bytes}
    (blank₂ : Blank b₂) (blank₃ : Blank b₃) (isValue : IsValue v) (delimited : Delimits rest) :
    shape.member key d (b₂ ++ 0x3a :: (b₃ ++ (v ++ rest))) = .ok (d, rest) := by
  have missing : shape.fields.find? (fun f => f.name == key) = none := by
    rw [List.find?_eq_none]
    intro f member same
    rw [← h.names] at unknown
    exact unknown (List.mem_map.mpr ⟨f, member, by simpa using same⟩)
  simp only [Shape.member, missing, colon_eq blank₂, Skip.any_eq isValue blank₃ delimited, bind,
    Except.bind]
  rfl

theorem members (h : Follows shape entries value draft) {seen : List String} {ms : List Member}
    (ahead : Ahead entries seen ms) {first : Bool} {tail : Bytes} (text : Members first ms tail)
    {fuel : Nat} (enough : ms.length < fuel) (rest : Bytes) :
    shape.members fuel first (draft seen) (tail ++ rest) = .ok (value, rest) := by
  induction ms generalizing seen first tail fuel with
  | nil =>
    obtain ⟨fuel, rfl⟩ := Nat.exists_eq_succ_of_ne_zero (Nat.ne_of_gt enough)
    cases text with
    | done blank =>
      have finished := h.finish seen fun e among =>
        (ahead.whole e among).imp_right fun read => read.resolve_right nofun
      rw [Shape.members, List.append_assoc, List.singleton_append]
      simp only [nextKey_end _ blank, finished, bind, Except.bind]
      rfl
  | cons m ms ih =>
    obtain ⟨fuel, rfl⟩ := Nat.exists_eq_succ_of_ne_zero (Nat.ne_of_gt (Nat.zero_lt_of_lt enough))
    have shorter : ms.length < fuel := by simpa using enough
    cases text with
    | @next _ _ _ b₀ b₁ b₂ b₃ tail blank₀ blank₁ blank₂ blank₃ following =>
      have delimited := following.delimits rest
      rw [Shape.members]
      simp only [List.append_assoc, List.cons_append]
      rcases ahead.each m List.mem_cons_self with ⟨e, among, unread, named, allowed⟩ | unknown
      · simp only [nextKey_names _ blank₀ blank₁ named,
          h.known among unread blank₂ blank₃ allowed delimited, bind, Except.bind]
        exact ih (ahead.next named) following shorter
      · obtain ⟨key, other, named, isValue⟩ := unknown
        simp only [nextKey_names _ blank₀ blank₁ named,
          h.unknown other _ blank₂ blank₃ isValue delimited, bind, Except.bind]
        exact ih (ahead.pass ⟨key, other, named, isValue⟩) following shorter

/-- A record is read from its text in any arrangement. -/
theorem reads (h : Follows shape entries value draft) {text : Bytes}
    (isRecord : IsRecord entries text) : Reads shape.read text value := by
  obtain ⟨known, others, ms, filled, unknown, order, tail, members, rfl⟩ := isRecord
  have distinct : (entries.map Entry.name).Nodup := h.names ▸ h.lawful.distinct
  constructor
  · intro rest _
    have ahead := Ahead.start distinct filled unknown order
    have enough : ms.length < (tail ++ rest).length + 1 := by
      have := members.length_le
      rw [List.length_append]
      omega
    simpa [Shape.read, skipSpace_cons (b := 0x7b) (by decide), h.start] using
      h.members ahead members enough rest
  · exact ⟨0x7b, tail, rfl, by decide, by decide⟩

end Follows

end Shape

end ChangeDispatch.Json
