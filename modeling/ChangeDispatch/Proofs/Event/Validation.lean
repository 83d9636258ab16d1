import ChangeDispatch.Event.Change
import ChangeDispatch.Proofs.Config.Text
import ChangeDispatch.Proofs.Wire.RequestId
import Mathlib

/-!
# Which events are accepted

The name of a workspace is a word of a regular language, and its owner is not blank. The language
is stated here by union and concatenation; the checks look at bytes, at characters and at both
ends instead. `Rule` lists what they ask for in their order, `mem_nameGrammar_iff` shows that the
rules of the name have the same words as the language, and an event that is refused is refused for
the first rule that it breaks.
-/
namespace ChangeDispatch

theorem Text.trim_eq_empty_iff {s : String} :
    trim s = "" ↔ ∀ c ∈ s.toList, isBlank c = true := by
  rw [trim, String.ofList_eq_empty_iff, ← trims_iff]
  constructor
  · rintro ⟨⟨front, back, all, front_blank, back_blank⟩, -, -⟩ c mem
    rw [all] at mem
    exact (List.mem_append.mp mem).elim (front_blank c) (back_blank c)
  · exact fun blank => ⟨⟨_, [], by simp, blank, by simp⟩, by simp, by simp⟩

namespace ChangeEvent

/-! ## Names -/

/-- `[a-z0-9]` -/
def alphanumerics : Set Char := Set.Icc 'a' 'z' ∪ Set.Icc '0' '9'

/-- `[a-z0-9-]` -/
def nameChars : Set Char := alphanumerics ∪ {'-'}

/-- The words of one character of a class. -/
def oneOf (s : Set Char) : Language Char := {w | ∃ c ∈ s, w = [c]}

/-- `[a-z0-9]([a-z0-9-]{0,61}[a-z0-9])?` -/
def nameGrammar : Language Char :=
  oneOf alphanumerics * (1 + (⨆ n ≤ 61, oneOf nameChars ^ n) * oneOf alphanumerics)

theorem mem_oneOf_pow {s : Set Char} {n : Nat} {w : List Char} :
    w ∈ oneOf s ^ n ↔ w.length = n ∧ ∀ c ∈ w, c ∈ s := by
  induction n generalizing w with
  | zero =>
    rw [pow_zero, Language.mem_one, List.length_eq_zero_iff]
    exact ⟨fun empty => ⟨empty, by simp [empty]⟩, And.left⟩
  | succ n ih =>
    rw [pow_succ', Language.mem_mul]
    constructor
    · rintro ⟨_, ⟨c, first, rfl⟩, rest, word, rfl⟩
      obtain ⟨rfl, others⟩ := ih.mp word
      exact ⟨rfl, List.forall_mem_cons.mpr ⟨first, others⟩⟩
    · rintro ⟨long, mem⟩
      cases w with
      | nil => cases long
      | cons c rest =>
        obtain ⟨first, others⟩ := List.forall_mem_cons.mp mem
        exact ⟨[c], ⟨c, first, rfl⟩, rest, ih.mpr ⟨Nat.succ.inj long, others⟩, rfl⟩

/-- A word of the grammar is one letter or digit, or two with at most 61 characters between. -/
theorem mem_nameGrammar {w : List Char} :
    w ∈ nameGrammar ↔ ∃ c ∈ alphanumerics, w = [c] ∨ ∃ inner, ∃ d ∈ alphanumerics,
      w = c :: inner ++ [d] ∧ inner.length ≤ 61 ∧ ∀ i ∈ inner, i ∈ nameChars := by
  have tail {rest : List Char} : rest ∈ (⨆ n ≤ 61, oneOf nameChars ^ n) * oneOf alphanumerics ↔
      ∃ inner, ∃ d ∈ alphanumerics, rest = inner ++ [d] ∧ inner.length ≤ 61 ∧
        ∀ i ∈ inner, i ∈ nameChars := by
    simp only [Language.mem_mul, Language.mem_iSup, mem_oneOf_pow]
    constructor
    · rintro ⟨inner, ⟨_, few, rfl, chars⟩, _, ⟨d, last, rfl⟩, rfl⟩
      exact ⟨inner, d, last, rfl, few, chars⟩
    · rintro ⟨inner, d, last, rfl, few, chars⟩
      exact ⟨inner, ⟨_, few, rfl, chars⟩, [d], ⟨d, last, rfl⟩, rfl⟩
  unfold nameGrammar
  simp only [Language.mem_mul, Language.mem_add, Language.mem_one, tail]
  constructor
  · rintro ⟨_, ⟨c, first, rfl⟩, _, rfl | ⟨inner, d, last, rfl, few, chars⟩, rfl⟩
    · exact ⟨c, first, .inl rfl⟩
    · exact ⟨c, first, .inr ⟨inner, d, last, rfl, few, chars⟩⟩
  · rintro ⟨c, first, rfl | ⟨inner, d, last, rfl, few, chars⟩⟩
    · exact ⟨[c], ⟨c, first, rfl⟩, [], .inl rfl, rfl⟩
    · exact ⟨[c], ⟨c, first, rfl⟩, _, .inr ⟨inner, d, last, rfl, few, chars⟩, rfl⟩

theorem mem_alphanumerics {c : Char} : c ∈ alphanumerics ↔ c ∈ nameChars ∧ c ≠ '-' := by
  have hyphen : '-' ∉ alphanumerics := by
    rintro (⟨low, -⟩ | ⟨low, -⟩)
    · exact absurd low (by decide)
    · exact absurd low (by decide)
  constructor
  · intro mem
    exact ⟨.inl mem, fun same => hyphen (same ▸ mem)⟩
  · rintro ⟨mem | same, other⟩
    · exact mem
    · exact absurd same other

/-- The same words, told by their length, their characters and their ends. -/
theorem mem_nameGrammar_iff {w : List Char} :
    w ∈ nameGrammar ↔ w ≠ [] ∧ w.length ≤ 63 ∧ (∀ c ∈ w, c ∈ nameChars) ∧
      w.head? ≠ some '-' ∧ w.getLast? ≠ some '-' := by
  rw [mem_nameGrammar]
  have length (c d : Char) (inner : List Char) : (c :: inner ++ [d]).length = inner.length + 2 := by
    rw [List.length_append, List.length_cons, List.length_singleton]
  constructor
  · rintro ⟨c, first, rfl | ⟨inner, d, last, rfl, few, chars⟩⟩
    · obtain ⟨char, other⟩ := mem_alphanumerics.mp first
      simpa [char] using other
    · obtain ⟨char, other⟩ := mem_alphanumerics.mp first
      obtain ⟨char', other'⟩ := mem_alphanumerics.mp last
      refine ⟨List.cons_ne_nil _ _, by rw [length]; omega, fun i mem => ?_, by simpa using other, ?_⟩
      · rcases List.mem_append.mp mem with mem | mem
        · exact List.forall_mem_cons.mpr ⟨char, chars⟩ i mem
        · exact List.mem_singleton.mp mem ▸ char'
      · rw [List.getLast?_concat]
        simpa using other'
  · rintro ⟨nonempty, short, chars, first, last⟩
    obtain ⟨c, rest, rfl⟩ := List.exists_cons_of_ne_nil nonempty
    have outer : c ∈ alphanumerics :=
      mem_alphanumerics.mpr ⟨chars c List.mem_cons_self, by simpa using first⟩
    refine ⟨c, outer, ?_⟩
    rcases List.eq_nil_or_concat' rest with rfl | ⟨inner, d, rfl⟩
    · exact .inl rfl
    · rw [← List.cons_append] at short last
      rw [length] at short
      rw [List.getLast?_concat] at last
      have outer' : d ∈ alphanumerics :=
        mem_alphanumerics.mpr ⟨chars d (by simp), by simpa using last⟩
      exact .inr ⟨inner, d, outer', rfl, by omega, fun i mem => chars i (by simp [mem])⟩

theorem isNameChar_iff {c : Char} : isNameChar c = true ↔ c ∈ nameChars := by
  simp only [isNameChar, Bool.or_eq_true, Bool.and_eq_true, decide_eq_true_eq, beq_iff_eq]
  exact Iff.rfl

theorem utf8Size_of_mem_nameChars {c : Char} (h : c ∈ nameChars) : c.utf8Size = 1 := by
  rcases h with (⟨-, high⟩ | ⟨-, high⟩) | rfl
  · exact Char.utf8Size_eq_one_iff.mpr (UInt32.le_trans high (by decide : 'z'.val ≤ 127))
  · exact Char.utf8Size_eq_one_iff.mpr (UInt32.le_trans high (by decide : '9'.val ≤ 127))
  · rfl

/-! ## Rules -/

/-- What is asked of an event. -/
inductive Rule where
  | named
  | short
  | plain
  | unhyphenated
  | owned
  deriving DecidableEq

namespace Rule

/-- Every rule, in the order in which they are checked. -/
def all : List Rule := [named, short, plain, unhyphenated, owned]

/-- The event obeys the rule. The length of its name counts in bytes. -/
def Holds (e : ChangeEvent) : Rule → Prop
  | named => e.name ≠ ""
  | short => e.name.utf8ByteSize ≤ 63
  | plain => ∀ c ∈ e.name.toList, c ∈ nameChars
  | unhyphenated => e.name.toList.head? ≠ some '-' ∧ e.name.toList.getLast? ≠ some '-'
  | owned => Text.trim e.owner ≠ ""

/-- The text that an event gets if it breaks the rule. Of the characters that a name may not hold
it shows the first. -/
def Reports (e : ChangeEvent) : Rule → String → Prop
  | named, text => text = "workspace name is empty"
  | short, text => text = s!"workspace name exceeds 63 characters: {e.name.utf8ByteSize}"
  | plain, text => ∃ before c after, e.name.toList = before ++ c :: after ∧
      (∀ b ∈ before, b ∈ nameChars) ∧ c ∉ nameChars ∧
      text = s!"invalid character in workspace name: {Text.quotedChar c}"
  | unhyphenated, text => text = s!"workspace name cannot start or end with hyphen: {e.name}"
  | owned, text => text = "owner is empty"

/-- What the check of the rule finds. -/
def fault? (e : ChangeEvent) : Rule → Option String
  | named => if e.name.isEmpty then some "workspace name is empty" else none
  | short =>
    if maxNameLength < e.name.utf8ByteSize then
      some (s!"workspace name exceeds {maxNameLength} characters: " ++ toString e.name.utf8ByteSize)
    else none
  | plain =>
    (e.name.toList.find? fun c => !isNameChar c).map fun c =>
      "invalid character in workspace name: " ++ Text.quotedChar c
  | unhyphenated =>
    if e.name.toList.head? = some '-' ∨ e.name.toList.getLast? = some '-' then
      some s!"workspace name cannot start or end with hyphen: {e.name}"
    else none
  | owned => if e.owner.toList.all Text.isBlank then some "owner is empty" else none

theorem mem_all (r : Rule) : r ∈ all := by
  cases r <;> decide

end Rule

/-- `r` is the first rule that the event breaks. -/
def FirstBroken (e : ChangeEvent) (r : Rule) : Prop :=
  ∃ before after, Rule.all = before ++ r :: after ∧ (∀ q ∈ before, q.Holds e) ∧ ¬r.Holds e

variable {e : ChangeEvent} {r : Rule} {text : String}

theorem Rule.fault?_eq_none_iff : r.fault? e = none ↔ r.Holds e := by
  cases r with
  | named => simp [fault?, Holds]
  | short => simp [fault?, Holds, maxNameLength]
  | plain => simp [fault?, Holds, isNameChar_iff]
  | unhyphenated => simp [fault?, Holds]
  | owned => simp [fault?, Holds, Text.trim_eq_empty_iff]

theorem Rule.fault?_eq_some_iff : r.fault? e = some text ↔ ¬r.Holds e ∧ r.Reports e text := by
  cases r with
  | named =>
    rw [fault?, Option.ite_none_right_eq_some, Option.some_inj, String.isEmpty_iff]
    exact and_congr not_not.symm eq_comm
  | short =>
    rw [fault?, Option.ite_none_right_eq_some, Option.some_inj]
    exact and_congr Nat.not_le.symm eq_comm
  | plain =>
    rw [fault?, Option.map_eq_some_iff]
    constructor
    · rintro ⟨c, found, rfl⟩
      obtain ⟨bad, before, after, split, chars⟩ := List.find?_eq_some_iff_append.mp found
      have foreign : c ∉ nameChars := fun char => by simp [isNameChar_iff.mpr char] at bad
      refine ⟨fun plain => foreign (plain c (by simp [split])), before, c, after, split, ?_,
        foreign, rfl⟩
      exact fun b mem => isNameChar_iff.mp (by simpa using chars b mem)
    · rintro ⟨-, before, c, after, split, chars, foreign, rfl⟩
      refine ⟨c, List.find?_eq_some_iff_append.mpr ⟨?_, before, after, split, ?_⟩, rfl⟩
      · simpa [← isNameChar_iff] using foreign
      · exact fun b mem => by simpa using isNameChar_iff.mpr (chars b mem)
  | unhyphenated =>
    rw [fault?, Option.ite_none_right_eq_some, Option.some_inj]
    exact and_congr (by rw [Holds, not_and_or, not_not, not_not]) eq_comm
  | owned =>
    rw [fault?, Option.ite_none_right_eq_some, Option.some_inj, List.all_eq_true,
      ← Text.trim_eq_empty_iff]
    exact and_congr not_not.symm eq_comm

theorem findSome?_fault_eq_none_iff :
    Rule.all.findSome? (Rule.fault? e) = none ↔ ∀ r : Rule, r.Holds e := by
  simp only [List.findSome?_eq_none_iff, Rule.fault?_eq_none_iff, Rule.mem_all, true_imp_iff]

theorem findSome?_fault_eq_some_iff :
    Rule.all.findSome? (Rule.fault? e) = some text ↔ ∃ r, FirstBroken e r ∧ r.Reports e text := by
  simp only [List.findSome?_eq_some_iff, Rule.fault?_eq_none_iff, Rule.fault?_eq_some_iff]
  constructor
  · rintro ⟨before, r, after, order, ⟨broken, reported⟩, kept⟩
    exact ⟨r, ⟨before, after, order, kept, broken⟩, reported⟩
  · rintro ⟨r, ⟨before, after, order, kept, broken⟩, reported⟩
    exact ⟨before, r, after, order, ⟨broken, reported⟩, kept⟩

/-- Validation is the first check that finds something. -/
theorem validate_eq (e : ChangeEvent) :
    e.validate = match Rule.all.findSome? (Rule.fault? e) with
      | some text => .error (.invalidEvent text)
      | none => .ok () := by
  unfold validate validateName validateOwner
  simp only [Rule.all, List.findSome?_cons, List.findSome?_nil, Rule.fault?]
  by_cases empty : e.name.isEmpty = true
  · simp only [empty, if_true]
    rfl
  simp only [empty]
  by_cases long : maxNameLength < e.name.utf8ByteSize
  · simp only [long, if_true]
    rfl
  simp only [long, if_false]
  cases e.name.toList.find? fun c => !isNameChar c with
  | some c => rfl
  | none =>
    by_cases hyphen : e.name.toList.head? = some '-' ∨ e.name.toList.getLast? = some '-'
    · simp only [hyphen, if_true]
      rfl
    simp only [hyphen, if_false]
    by_cases blank : e.owner.toList.all Text.isBlank = true
    · simp only [blank, if_true]
      rfl
    · simp only [blank]
      rfl

/-! ## The verdict -/

/-- A name that obeys the rules is a word of the grammar: its characters are one byte each, so
that it has as many characters as bytes. -/
theorem holds_iff :
    (∀ r : Rule, r.Holds e) ↔
      e.name.toList ∈ nameGrammar ∧ ∃ c ∈ e.owner.toList, Text.isBlank c = false := by
  have size (plain : Rule.plain.Holds e) : e.name.utf8ByteSize = e.name.toList.length := by
    have := RequestId.byteLength_eq_length fun c mem => utf8Size_of_mem_nameChars (plain c mem)
    rwa [RequestId.byteLength, String.ofList_toList] at this
  have owned : Rule.owned.Holds e ↔ ∃ c ∈ e.owner.toList, Text.isBlank c = false := by
    simp [Rule.Holds, Text.trim_eq_empty_iff]
  rw [mem_nameGrammar_iff, ← owned]
  constructor
  · intro holds
    have plain := holds .plain
    refine ⟨⟨?_, size plain ▸ holds .short, plain, holds .unhyphenated⟩, holds .owned⟩
    exact fun empty => holds .named (String.toList_eq_nil_iff.mp empty)
  · rintro ⟨⟨nonempty, short, plain, unhyphenated⟩, owned⟩ r
    cases r with
    | named => exact fun empty => nonempty (String.toList_eq_nil_iff.mpr empty)
    | short => exact (size plain).trans_le short
    | plain => exact plain
    | unhyphenated => exact unhyphenated
    | owned => exact owned

/-- How an event is judged. -/
structure Judged (e : ChangeEvent) : Prop where
  /-- It is accepted exactly if its name is a word of the grammar and its owner is not blank. -/
  accepted : e.validate = .ok () ↔
    e.name.toList ∈ nameGrammar ∧ ∃ c ∈ e.owner.toList, Text.isBlank c = false
  /-- Otherwise the first rule that it breaks is what it is refused for. -/
  refused : ∀ err, e.validate = .error err ↔
    ∃ r text, FirstBroken e r ∧ r.Reports e text ∧ err = .invalidEvent text
  /-- Events with one name and one owner are judged alike, whatever else they ask for. -/
  alike : ∀ other : ChangeEvent, other.name = e.name → other.owner = e.owner →
    other.validate = e.validate

theorem judged_by_grammar (e : ChangeEvent) : Judged e where
  accepted := by
    rw [← holds_iff, ← findSome?_fault_eq_none_iff, validate_eq]
    cases Rule.all.findSome? (Rule.fault? e) <;> simp
  refused err := by
    rw [validate_eq]
    constructor
    · intro refused
      cases found : Rule.all.findSome? (Rule.fault? e) with
      | none => rw [found] at refused; cases refused
      | some text =>
        rw [found] at refused
        obtain ⟨r, first, reported⟩ := findSome?_fault_eq_some_iff.mp found
        exact ⟨r, text, first, reported, (Except.error.inj refused).symm⟩
    · rintro ⟨r, text, first, reported, rfl⟩
      rw [findSome?_fault_eq_some_iff.mpr ⟨r, first, reported⟩]
  alike other name owner := by
    unfold validate
    rw [name, owner]

/-- An event that breaks three rules. -/
example (e : ChangeEvent) : ({ e with name := "Ws-", owner := " " } : ChangeEvent).validate =
    .error (.invalidEvent "invalid character in workspace name: 'W'") := by
  cbv

end ChangeEvent

end ChangeDispatch
