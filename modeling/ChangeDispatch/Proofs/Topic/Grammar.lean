import ChangeDispatch.Topic
import ChangeDispatch.Proofs.Config.Text
import Mathlib.Data.List.Basic
import Mathlib.Logic.Function.Iterate

/-!
# The grammar of topics

A text is made of the parts between its dots, in exactly one way. It is a topic if each part is a
token, and the name of a subscription if it is a topic of one part. The dead-letter topic of a
text has the same parts but for the last, which ends in the suffix, so a topic and all that follow
from it have one number of tokens. Their lengths differ.
-/
namespace ChangeDispatch.Topic

/-- `text` is made of `parts`, joined by single dots. -/
structure IsMadeOf (text : String) (parts : List String) : Prop where
  joined : ".".intercalate parts = text
  nonempty : parts ≠ []
  dotless : ∀ part ∈ parts, '.' ∉ part.toList

/-- A token is not empty and holds neither blanks nor wildcards. -/
structure IsToken (part : String) : Prop where
  nonempty : part ≠ ""
  plain : ∀ c ∈ part.toList, Text.isBlank c = false ∧ c ≠ '*' ∧ c ≠ '>'

variable {text last : String} {parts front : List String}

/-! ## Parts -/

theorem tokens_eq_splitOn (cs : List Char) : tokens cs = cs.splitOn '.' := by
  induction cs with
  | nil => rfl
  | cons c cs ih =>
    rw [tokens, List.splitOn_cons_eq_if_modifyHead, ih]
    cases split_rest : cs.splitOn '.' with
    | nil => exact absurd split_rest (List.splitOn_ne_nil '.' cs)
    | cons part parts => simp

theorem isMadeOf_iff : IsMadeOf text parts ↔ (tokens text.toList).map String.ofList = parts := by
  have chars : (tokens text.toList).map String.ofList = parts ↔
      text.toList.splitOn '.' = parts.map String.toList := by
    rw [← tokens_eq_splitOn]
    constructor
    · rintro rfl
      simp
    · intro same
      simp [same]
  have joined : ['.'].intercalate (parts.map String.toList) = text.toList ↔
      ".".intercalate parts = text := by
    rw [← String.toList_inj, String.toList_intercalate]
    exact Iff.rfl
  rw [chars, Text.splitOn_eq_iff, joined]
  constructor
  · rintro ⟨joined, nonempty, dotless⟩
    exact ⟨joined, by simpa using nonempty, by simpa using dotless⟩
  · rintro ⟨joined, nonempty, dotless⟩
    exact ⟨joined, by simpa using nonempty, by simpa using dotless⟩

theorem isMadeOf_singleton_iff : IsMadeOf text [text] ↔ '.' ∉ text.toList := by
  constructor
  · exact fun made => made.dotless text (List.mem_singleton_self text)
  · exact fun dotless => ⟨String.intercalate_singleton, by simp, by simpa using dotless⟩

/-! ## Checks -/

theorem isReserved_eq_false_iff {c : Char} :
    isReserved c = false ↔ Text.isBlank c = false ∧ c ≠ '*' ∧ c ≠ '>' := by
  simp [isReserved, and_assoc]

theorem isToken_ofList_iff {cs : List Char} :
    IsToken (String.ofList cs) ↔ cs ≠ [] ∧ ∀ c ∈ cs, isReserved c = false := by
  simp only [isReserved_eq_false_iff]
  constructor
  · rintro ⟨nonempty, plain⟩
    exact ⟨by simpa using nonempty, by simpa using plain⟩
  · rintro ⟨nonempty, plain⟩
    exact ⟨by simpa using nonempty, by simpa using plain⟩

theorem tokenDefect?_eq_none_iff {cs : List Char} :
    tokenDefect? text cs = none ↔ IsToken (String.ofList cs) := by
  have clear : (∀ c ∈ cs, isReserved c = false) ↔ ¬cs.any isReserved = true := by simp
  rw [isToken_ofList_iff, clear, tokenDefect?]
  by_cases empty : cs = []
  · simp [empty]
  · rw [if_neg (by simpa using empty), and_iff_right empty]
    cases cs.any isReserved <;> simp

/-- The empty text needs no case of its own: its only part is empty. -/
theorem validate_iff_tokens :
    validate text = .ok () ↔ ∀ cs ∈ tokens text.toList, IsToken (String.ofList cs) := by
  have none_iff : (tokens text.toList).findSome? (tokenDefect? text) = none ↔
      ∀ cs ∈ tokens text.toList, IsToken (String.ofList cs) := by
    simp only [List.findSome?_eq_none_iff, tokenDefect?_eq_none_iff]
  rw [← none_iff, validate]
  by_cases empty : text = ""
  · subst empty
    constructor
    · intro valid
      cases valid
    · intro valid
      cases valid
  · rw [if_neg (by simpa using empty)]
    cases (tokens text.toList).findSome? (tokenDefect? text) <;> simp

theorem validate_iff :
    validate text = .ok () ↔ ∃ parts, IsMadeOf text parts ∧ ∀ part ∈ parts, IsToken part := by
  rw [validate_iff_tokens]
  constructor
  · intro valid
    exact ⟨_, isMadeOf_iff.mpr rfl, by simpa using valid⟩
  · rintro ⟨_, made, valid⟩
    obtain rfl := isMadeOf_iff.mp made
    simpa using valid

/-- A name is looked through at once and not part by part. -/
theorem validate_name_iff :
    SubscriptionName.validate text = .ok () ↔ IsToken text ∧ '.' ∉ text.toList := by
  have token : IsToken text ↔ text ≠ "" ∧ ∀ c ∈ text.toList, isReserved c = false := by
    simpa using @isToken_ofList_iff text.toList
  have chars : (text.toList.any fun c => isReserved c || c == '.') = false ↔
      (∀ c ∈ text.toList, isReserved c = false) ∧ '.' ∉ text.toList := by
    simp only [List.any_eq_false, Bool.or_eq_true, not_or, Bool.not_eq_true, beq_iff_eq,
      forall₂_and, ← List.forall_mem_ne']
  rw [SubscriptionName.validate, token, and_assoc, ← chars]
  cases text.toList.any fun c => isReserved c || c == '.' <;>
    by_cases empty : text = "" <;> simp [empty]

/-! ## Dead-letter topics -/

theorem toList_deadLetter (text : String) :
    (deadLetter text).toList = text.toList ++ deadLetterSuffix.toList :=
  String.toList_append

theorem length_deadLetter (text : String) : (deadLetter text).length = text.length + 4 := by
  unfold deadLetter
  rw [String.length_append]
  rfl

theorem deadLetter_ne (text : String) : deadLetter text ≠ text := by
  intro same
  have longer := length_deadLetter text
  rw [same] at longer
  omega

theorem deadLetter_injective : Function.Injective deadLetter := by
  intro s t same
  have chars := congrArg String.toList same
  rw [toList_deadLetter, toList_deadLetter] at chars
  exact String.toList_inj.mp (List.append_cancel_right chars)

theorem isToken_deadLetter (token : IsToken text) : IsToken (deadLetter text) := by
  constructor
  · intro empty
    have long := length_deadLetter text
    rw [empty] at long
    cases long
  · intro c mem
    rw [toList_deadLetter] at mem
    rcases List.mem_append.mp mem with mem | mem
    · exact token.plain c mem
    · have clear : deadLetterSuffix.toList.any isReserved = false := by decide
      exact isReserved_eq_false_iff.mp (Bool.eq_false_iff.mpr (List.any_eq_false.mp clear c mem))

/-- Only the last part is longer. -/
theorem IsMadeOf.deadLetter (made : IsMadeOf text (front ++ [last])) :
    IsMadeOf (deadLetter text) (front ++ [Topic.deadLetter last]) := by
  refine ⟨?_, by simp, ?_⟩
  · rw [← made.joined]
    cases front with
    | nil => simp [String.intercalate_singleton]
    | cons part rest =>
      rw [String.intercalate_append_of_ne_nil (by simp) (by simp),
        String.intercalate_append_of_ne_nil (by simp) (by simp), String.intercalate_singleton,
        String.intercalate_singleton]
      exact (String.append_assoc ..).symm
  · intro part mem
    rcases List.mem_append.mp mem with mem | mem
    · exact made.dotless part (List.mem_append_left _ mem)
    · obtain rfl := List.mem_singleton.mp mem
      rw [toList_deadLetter, List.mem_append, not_or]
      exact ⟨made.dotless last (by simp), by decide⟩

/-- A part longer, a token still: what follows from a topic is a topic with as many tokens. -/
theorem iterate_deadLetter (made : IsMadeOf text parts) (n : Nat) :
    ∃ parts', IsMadeOf (deadLetter^[n] text) parts' ∧ parts'.length = parts.length ∧
      ((∀ part ∈ parts, IsToken part) → ∀ part ∈ parts', IsToken part) := by
  induction n with
  | zero => exact ⟨parts, made, rfl, id⟩
  | succ n ih =>
    obtain ⟨parts', made', same, tokens⟩ := ih
    obtain ⟨front, last, rfl⟩ := (List.eq_nil_or_concat' parts').resolve_left made'.nonempty
    rw [Function.iterate_succ_apply']
    refine ⟨_, made'.deadLetter, by simpa using same, fun plain part mem => ?_⟩
    rcases List.mem_append.mp mem with mem | mem
    · exact tokens plain part (List.mem_append_left _ mem)
    · obtain rfl := List.mem_singleton.mp mem
      exact isToken_deadLetter (tokens plain last (by simp))

theorem length_iterate_deadLetter (text : String) (n : Nat) :
    (deadLetter^[n] text).length = text.length + 4 * n := by
  induction n with
  | zero => rfl
  | succ n ih =>
    rw [Function.iterate_succ_apply', length_deadLetter, ih]
    omega

/-! ## The grammar -/

/-- What the checks make of a text, and what becomes of the topics that follow from it. -/
structure Grammar (text : String) : Prop where
  /-- A text is made of parts in exactly one way. -/
  parts : ∃! parts, IsMadeOf text parts
  /-- It is a topic exactly if its parts are tokens. -/
  topic : validate text = .ok () ↔ ∃ parts, IsMadeOf text parts ∧ ∀ part ∈ parts, IsToken part
  /-- It is a name exactly if it is a topic and has no other part than itself. -/
  name : SubscriptionName.validate text = .ok () ↔ validate text = .ok () ∧ IsMadeOf text [text]
  /-- The dead-letter topics that follow from a topic are topics, -/
  follow : validate text = .ok () → ∀ n, validate (deadLetter^[n] text) = .ok ()
  /-- they have as many parts as the topic has, -/
  tokens : ∀ n parts parts', IsMadeOf text parts → IsMadeOf (deadLetter^[n] text) parts' →
    parts'.length = parts.length
  /-- and no two of them are one. -/
  apart : Function.Injective fun n => deadLetter^[n] text
  /-- No other text shares its dead-letter topic. -/
  own : ∀ other, deadLetter other = deadLetter text → other = text

theorem follows_grammar (text : String) : Grammar text where
  parts := ⟨_, isMadeOf_iff.mpr rfl, fun _ made => (isMadeOf_iff.mp made).symm⟩
  topic := validate_iff
  name := by
    rw [validate_name_iff, isMadeOf_singleton_iff, validate_iff]
    constructor
    · rintro ⟨token, dotless⟩
      exact ⟨⟨[text], isMadeOf_singleton_iff.mpr dotless, by simpa using token⟩, dotless⟩
    · rintro ⟨⟨parts, made, tokens⟩, dotless⟩
      have single : [text] = parts :=
        (isMadeOf_iff.mp (isMadeOf_singleton_iff.mpr dotless)).symm.trans (isMadeOf_iff.mp made)
      exact ⟨tokens text (by simp [← single]), dotless⟩
  follow valid n := by
    obtain ⟨parts, made, tokens⟩ := validate_iff.mp valid
    obtain ⟨parts', made', -, kept⟩ := iterate_deadLetter made n
    exact validate_iff.mpr ⟨parts', made', kept tokens⟩
  tokens n parts parts' made made' := by
    obtain ⟨parts'', made'', same, -⟩ := iterate_deadLetter made n
    rw [← same, ← isMadeOf_iff.mp made', ← isMadeOf_iff.mp made'']
  apart m n same := by
    have long := congrArg String.length same
    simp only [length_iterate_deadLetter] at long
    omega
  own _ same := deadLetter_injective same

/-- What follows from no topic can be one: here the suffix fills the empty part. -/
example :
    validate "workspace." = .error (.configuration "topic has an empty token: workspace.") ∧
      validate (deadLetter "workspace.") = .ok () := by
  cbv

end ChangeDispatch.Topic
