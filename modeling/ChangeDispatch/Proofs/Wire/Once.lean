import Mathlib.Data.List.Nodup
import ChangeDispatch.Proofs.Wire.Whole

/-!
# A known name stands once

An object that is read as a record names each field of the record once at most, and the reader of
that field has accepted its value. Nothing else is assumed of the object: its members may have any
names, values and order, so this bounds what any payload can say that is not refused.
-/
namespace ChangeDispatch.Json

/-- The reader takes the value, at some place where it is delimited. -/
def Accepts {α : Type} (read : Reader α) (v : Bytes) : Prop :=
  ∃ rest x r, Delimits rest ∧ read (v ++ rest) = .ok (x, r)

section Accepts

variable {α β : Type} {read : Reader α} {v : Bytes}

theorem Accepts.of_andThen (put : α → β)
    (h : Accepts (fun bs => do let (v, rest) ← read bs; return (put v, rest)) v) :
    Accepts read v := by
  obtain ⟨rest, x, r, delimited, taken⟩ := h
  obtain ⟨⟨y, r'⟩, taken, -⟩ := ok_of_bind taken
  exact ⟨rest, y, r', delimited, taken⟩

/-- What is accepted where it may be missing is accepted, unless it is `null`. -/
theorem Accepts.of_optional (h : Accepts (optional read) v) (value : IsValue v)
    (there : ∀ tail, v ≠ 0x6e :: tail) : Accepts read v := by
  obtain ⟨rest, x, r, delimited, taken⟩ := h
  obtain ⟨b, tail, rfl, skipped⟩ := value.first rest
  have noNull : b ≠ 0x6e := fun null => there tail (null ▸ rfl)
  simp only [Json.optional, List.cons_append, skipped, if_neg noNull] at taken
  obtain ⟨⟨y, r'⟩, taken, -⟩ := ok_of_map taken
  exact ⟨rest, y, r', delimited, taken⟩

end Accepts

namespace Shape

variable {Draft α : Type} {shape : Shape Draft α}

/-- Fields have names of their own, and reading one sets it and unsets none. -/
structure Lawful (shape : Shape Draft α) : Prop where
  distinct : (shape.fields.map RecordField.name).Nodup
  whole : ∀ f ∈ shape.fields, ∀ draft, Whole (f.read draft)
  sets : ∀ f ∈ shape.fields, ∀ draft bs draft' r, f.read draft bs = .ok (draft', r) →
    f.isSet draft' = true ∧ ∀ g ∈ shape.fields, g.isSet draft = true → g.isSet draft' = true

/-- The field reads a value whole and puts it into the draft. Then it is set, and so are all the
fields that were. -/
structure Puts {β : Type} (fields : List (RecordField Draft)) (f : RecordField Draft)
    (base : Reader β) (put : Draft → β → Draft) : Prop where
  whole : Whole base
  read : ∀ draft, f.read draft = fun bs => do let (v, rest) ← base bs; return (put draft v, rest)
  sets : ∀ draft v, f.isSet (put draft v) = true
  keeps : ∀ g ∈ fields, ∀ draft v, g.isSet draft = true → g.isSet (put draft v) = true

theorem Lawful.of (distinct : (shape.fields.map RecordField.name).Nodup)
    (puts : ∀ f ∈ shape.fields, ∃ (β : Type) (base : Reader β) (put : Draft → β → Draft),
      Puts shape.fields f base put) : shape.Lawful where
  distinct := distinct
  whole f member draft := by
    obtain ⟨β, base, put, puts⟩ := puts f member
    rw [puts.read]
    exact puts.whole.andThen (put draft)
  sets f member draft bs draft' r taken := by
    obtain ⟨β, base, put, puts⟩ := puts f member
    rw [puts.read] at taken
    obtain ⟨⟨v, rest⟩, -, same⟩ := ok_of_bind taken
    cases same
    exact ⟨puts.sets draft v, fun g among set => puts.keeps g among draft v set⟩

/-- What is known of the members of an object that have been read into a draft. -/
structure Taken (shape : Shape Draft α) (draft : Draft) (ms : List Member) : Prop where
  /-- No field was set before that one of them names. -/
  unset : ∀ m ∈ ms, ∀ f ∈ shape.fields, Text.Names f.name m.key → f.isSet draft = false
  /-- No two of them name the same field. -/
  once : ms.Pairwise fun m m' =>
    ∀ f ∈ shape.fields, ¬(Text.Names f.name m.key ∧ Text.Names f.name m'.key)
  /-- The value of a field is one that its reader takes. -/
  accepted : ∀ m ∈ ms, ∀ f ∈ shape.fields, Text.Names f.name m.key →
    ∃ draft, Accepts (f.read draft) m.value

namespace Lawful

theorem find? (lawful : shape.Lawful) {f : RecordField Draft} (h : f ∈ shape.fields) :
    shape.fields.find? (fun g => g.name == f.name) = some f := by
  have unique : ∀ g ∈ shape.fields, g.name = f.name → g = f := fun g member same =>
    List.inj_on_of_nodup_map lawful.distinct member h same
  cases found : shape.fields.find? fun g => g.name == f.name with
  | none => exact absurd (List.find?_eq_none.mp found f h) (by simp)
  | some g =>
    have named : g.name = f.name := by simpa using List.find?_some found
    rw [unique g (List.mem_of_find?_eq_some found) named]

/-- A member that is read ends where its value does. It sets the field of its name, which was not
set, and unsets none. -/
theorem member (lawful : shape.Lawful) {key : String} {draft draft' : Draft}
    {b₂ b₃ v rest r : Bytes} (blank₂ : Blank b₂) (blank₃ : Blank b₃) (value : IsValue v)
    (delimited : Delimits rest)
    (taken : shape.member key draft (b₂ ++ 0x3a :: (b₃ ++ (v ++ rest))) = .ok (draft', r)) :
    r = rest ∧ ∀ f ∈ shape.fields, (f.isSet draft = true → f.isSet draft' = true) ∧
      (f.name = key →
        f.isSet draft = false ∧ f.isSet draft' = true ∧ Accepts (f.read draft) v) := by
  simp only [Shape.member, colon_eq blank₂] at taken
  cases found : shape.fields.find? fun f => f.name == key with
  | none =>
    simp only [found] at taken
    have passed := Skip.any_eq value blank₃ delimited
    obtain ⟨⟨⟨⟩, r₁⟩, marked, taken⟩ := ok_of_bind taken
    cases marked
    obtain ⟨⟨⟨⟩, r₂⟩, skipped, taken⟩ := ok_of_bind taken
    rw [passed] at skipped
    cases skipped
    cases taken
    refine ⟨rfl, fun f member => ⟨id, fun named => ?_⟩⟩
    exact absurd (List.find?_eq_none.mp found f member) (by simp [named])
  | some g =>
    simp only [found] at taken
    have member := List.mem_of_find?_eq_some found
    split at taken
    next => cases taken
    next unset =>
      obtain ⟨⟨⟨⟩, r₁⟩, marked, taken⟩ := ok_of_bind taken
      cases marked
      have whole := lawful.whole g member draft
      rw [whole.blanks _ blank₃] at taken
      refine ⟨whole.rest value delimited taken, fun f among => ⟨?_, ?_⟩⟩
      · exact (lawful.sets g member _ _ _ _ taken).2 f among
      · rintro rfl
        obtain rfl := Option.some.inj ((lawful.find? among).symm.trans found)
        exact ⟨Bool.eq_false_iff.mpr unset, (lawful.sets f among _ _ _ _ taken).1,
          rest, draft', r, delimited, taken⟩

theorem members (lawful : shape.Lawful) {ms : List Member} {first : Bool} {tail : Bytes}
    (h : Members first ms tail) (keys : ∀ m ∈ ms, IsBody m.key) (values : ∀ m ∈ ms, IsValue m.value)
    {fuel : Nat} {draft : Draft} {rest r : Bytes} {x : α}
    (taken : shape.members fuel first draft (tail ++ rest) = .ok (x, r)) :
    shape.Taken draft ms ∧ r = rest := by
  induction ms generalizing first tail fuel draft with
  | nil =>
    cases fuel with
    | zero => cases taken
    | succ fuel =>
      cases h with
      | done blank =>
        rw [Shape.members, List.append_assoc, List.singleton_append] at taken
        obtain ⟨⟨found, r'⟩, ended, taken⟩ := ok_of_bind taken
        rw [nextKey_end _ blank] at ended
        cases ended
        obtain ⟨value, -, taken⟩ := ok_of_bind taken
        cases taken
        exact ⟨⟨nofun, .nil, nofun⟩, rfl⟩
  | cons m ms ih =>
    cases fuel with
    | zero => cases taken
    | succ fuel =>
      cases h with
      | @next _ _ _ b₀ b₁ b₂ b₃ tail blank₀ blank₁ blank₂ blank₃ following =>
        simp only [List.forall_mem_cons] at keys values
        rw [Shape.members] at taken
        obtain ⟨⟨found, r₁⟩, next, taken⟩ := ok_of_bind taken
        simp only [List.append_assoc, List.cons_append] at next
        rw [nextKey_quoted _ blank₀ blank₁] at next
        obtain ⟨⟨key, r₁⟩, named, next⟩ := ok_of_map next
        cases next
        obtain rfl := Text.rest_of_read keys.1 named
        obtain ⟨⟨draft', r₂⟩, read, taken⟩ := ok_of_bind taken
        obtain ⟨rfl, sets⟩ := lawful.member blank₂ blank₃ values.1 (following.delimits rest) read
        obtain ⟨later, rfl⟩ := ih following keys.2 values.2 taken
        have same {name : String} (h : Text.Names name m.key) : name = key :=
          congrArg Prod.fst (Except.ok.inj ((h.read _).symm.trans named))
        refine ⟨⟨?_, ?_, ?_⟩, rfl⟩
        · refine List.forall_mem_cons.mpr ⟨fun f among h => ((sets f among).2 (same h)).1, ?_⟩
          intro m' member f among h
          rw [Bool.eq_false_iff]
          intro set
          cases ((sets f among).1 set).symm.trans (later.unset m' member f among h)
        · refine List.pairwise_cons.mpr ⟨fun m' member f among ⟨h, h'⟩ => ?_, later.once⟩
          cases ((sets f among).2 (same h)).2.1.symm.trans (later.unset m' member f among h')
        · refine List.forall_mem_cons.mpr ⟨fun f among h => ?_, later.accepted⟩
          exact ⟨draft, ((sets f among).2 (same h)).2.2⟩

theorem nextElement_value {first : Bool} {b₀ b₁ v rest : Bytes} (blank₀ : Blank b₀)
    (blank₁ : Blank b₁) (value : IsValue v) :
    nextElement first (b₀ ++ (lead first ++ (b₁ ++ (v ++ rest)))) = .ok (true, v ++ rest) := by
  obtain ⟨b, tail, rfl, skipped⟩ := value.first rest
  have noEnd : b ≠ 0x5d := value.noDelimiter.2
  rw [List.cons_append]
  cases first with
  | true =>
    simp [nextElement, lead, skipSpace_blank blank₀, skipSpace_blank blank₁, skipped, noEnd]
  | false =>
    simp [nextElement, lead, skipSpace_blank blank₀, skipSpace_blank blank₁,
      skipSpace_cons (b := 0x2c) (by decide), skipped, noEnd]

/-- The fields of a list leave what is again the text of a list. -/
theorem elements (lawful : shape.Lawful) {fields : List (RecordField Draft)}
    (among : ∀ f ∈ fields, f ∈ shape.fields) {vs : List Bytes} {index : Nat} {tail : Bytes}
    (h : Elements (index == 0) vs tail) (values : ∀ v ∈ vs, IsValue v) {draft draft' : Draft}
    {rest r : Bytes} (taken : shape.elements index fields draft (tail ++ rest) = .ok (draft', r)) :
    ∃ first vs' tail', Elements first vs' tail' ∧ (∀ v ∈ vs', IsValue v) ∧ r = tail' ++ rest := by
  induction fields generalizing index vs tail draft with
  | nil =>
    cases taken
    exact ⟨_, vs, tail, h, values, rfl⟩
  | cons f fields ih =>
    simp only [List.forall_mem_cons] at among
    rw [Shape.elements] at taken
    obtain ⟨⟨more, r₁⟩, next, taken⟩ := ok_of_bind taken
    cases h with
    | @done _ blanks blank =>
      have ended : nextElement (index == 0) (blanks ++ [0x5d] ++ rest)
          = .ok (false, 0x5d :: rest) := by
        simp [nextElement, skipSpace_blank blank, skipSpace_cons (b := 0x5d) (by decide)]
      cases ended.symm.trans next
      simp only at taken
      split at taken
      next => cases taken
      next =>
        have left : Elements (index + 1 == 0) [] [0x5d] := .done .nil
        exact ih among.2 left nofun taken
    | @next _ v vs b₀ b₁ tail blank₀ blank₁ following =>
      simp only [List.forall_mem_cons] at values
      simp only [List.append_assoc] at next
      cases (nextElement_value blank₀ blank₁ values.1).symm.trans next
      obtain ⟨⟨draft₁, r₂⟩, read, taken⟩ := ok_of_bind taken
      obtain rfl := (lawful.whole f among.1 draft).rest values.1 (following.delimits rest) read
      have later : Elements (index + 1 == 0) vs tail := following
      exact ih among.2 later values.2 taken

theorem listEnd {first : Bool} {vs : List Bytes} {tail rest r : Bytes} (h : Elements first vs tail)
    (values : ∀ v ∈ vs, IsValue v) (taken : Shape.listEnd (tail ++ rest) = .ok ((), r)) :
    r = rest := by
  cases h with
  | done blank =>
    rw [Shape.listEnd, List.append_assoc, skipSpace_blank blank, List.singleton_append,
      skipSpace_cons (by decide)] at taken
    cases taken
    rfl
  | @next _ v vs b₀ b₁ tail blank₀ blank₁ following =>
    simp only [List.forall_mem_cons] at values
    cases first with
    | true =>
      obtain ⟨b, inside, rfl, skipped⟩ := values.1.first (tail ++ rest)
      obtain ⟨noComma, noEnd⟩ := values.1.noDelimiter
      simp [Shape.listEnd, lead, skipSpace_blank blank₀, skipSpace_blank blank₁, skipped, noEnd,
        noComma] at taken
    | false =>
      simp only [Shape.listEnd, lead, List.append_assoc, skipSpace_blank blank₀,
        List.cons_append, skipSpace_cons (b := 0x2c) (by decide),
        if_neg (show (0x2c : UInt8) ≠ 0x5d by decide), if_pos] at taken
      repeat' split at taken
      all_goals cases taken

/-- A record is read whole or not at all. -/
theorem read (lawful : shape.Lawful) : Whole shape.read where
  blanks bs blank := by simp only [Shape.read, skipSpace_blank blank]
  rest {v rest x r} value delimited taken := by
    obtain ⟨b, tail, rfl, skipped⟩ := value.first rest
    rw [List.cons_append] at taken
    simp only [Shape.read, skipped] at taken
    split at taken
    next object =>
      subst object
      obtain ⟨ms, members, keys, values⟩ := value.members
      exact (lawful.members members keys values taken).2
    next =>
      split at taken
      next list =>
        subst list
        obtain ⟨vs, elements, values⟩ := value.elements
        obtain ⟨⟨draft, r₁⟩, gathered, taken⟩ := ok_of_bind taken
        obtain ⟨_, -, taken⟩ := ok_of_bind taken
        obtain ⟨⟨⟨⟩, r₂⟩, ended, taken⟩ := ok_of_bind taken
        cases taken
        have whole : Elements (0 == 0) vs tail := elements
        obtain ⟨_, _, _, left, values, rfl⟩ :=
          lawful.elements (fun _ => id) whole values gathered
        exact listEnd left values ended
      next => cases taken

end Lawful

/-- The text of an object with any names and any values. -/
structure IsAnyObject (ms : List Member) (text : Bytes) : Prop where
  text : IsObject ms text
  keys : ∀ m ∈ ms, IsBody m.key
  values : ∀ m ∈ ms, IsValue m.value

theorem IsAnyObject.isValue {ms : List Member} {text : Bytes} (h : IsAnyObject ms text) :
    IsValue text := by
  obtain ⟨⟨tail, members, rfl⟩, keys, values⟩ := h
  exact .object members keys values

/-- The text is an object in which a field of the record is written twice. -/
def Repeats (shape : Shape Draft α) (text : Bytes) : Prop :=
  ∃ ms, IsAnyObject ms text ∧ ∃ f ∈ shape.fields, ∃ m m',
    [m, m'].Sublist ms ∧ Text.Names f.name m.key ∧ Text.Names f.name m'.key

theorem Repeats.isValue {text : Bytes} (h : shape.Repeats text) : IsValue text := by
  obtain ⟨ms, object, -⟩ := h
  exact object.isValue

theorem Repeats.opens {text : Bytes} (h : shape.Repeats text) (tail : Bytes) :
    text ≠ 0x6e :: tail := by
  obtain ⟨ms, ⟨⟨_, -, rfl⟩, -, -⟩, -⟩ := h
  intro same
  cases (List.cons.inj same).1

namespace Lawful

/-- What is known of an object that is accepted as a record. -/
theorem taken (lawful : shape.Lawful) {ms : List Member} {text : Bytes} (h : IsAnyObject ms text)
    (accepts : Accepts shape.read text) : shape.Taken shape.start ms := by
  obtain ⟨⟨tail, members, rfl⟩, keys, values⟩ := h
  obtain ⟨rest, x, r, -, taken⟩ := accepts
  simp only [Shape.read, List.cons_append, skipSpace_cons (b := 0x7b) (by decide), if_pos] at taken
  exact (lawful.members members keys values taken).1

theorem refuses (lawful : shape.Lawful) {text : Bytes} (h : shape.Repeats text) :
    ¬Accepts shape.read text := by
  obtain ⟨ms, object, f, among, m, m', both, named, named'⟩ := h
  intro accepts
  have once := (lawful.taken object accepts).once.sublist both
  exact List.rel_of_pairwise_cons once (List.mem_singleton_self m') f among ⟨named, named'⟩

end Lawful

end Shape

end ChangeDispatch.Json
