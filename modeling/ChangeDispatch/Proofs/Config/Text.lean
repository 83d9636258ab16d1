import ChangeDispatch.Config
import Mathlib.Data.List.Forall2
import Mathlib.Data.List.TakeWhile

/-!
# What the text of a variable says

The text of a variable is read by three small grammars: trimmed text, an unsigned decimal number
with an optional sign, a list between commas. Each is stated here by what its words look like, and
the reader of each is shown to accept exactly these words.
-/
namespace ChangeDispatch

namespace Text

/-- `inner` is `raw` without the blanks around it. -/
structure Trims (raw inner : List Char) : Prop where
  around : ∃ front back, raw = front ++ (inner ++ back) ∧
    (∀ c ∈ front, isBlank c = true) ∧ ∀ c ∈ back, isBlank c = true
  first : ∀ c ∈ inner.head?, isBlank c = false
  last : ∀ c ∈ inner.getLast?, isBlank c = false

theorem trimStart_of_head {cs : List Char} (h : ∀ c ∈ cs.head?, isBlank c = false) :
    trimStart cs = cs := by
  cases cs with
  | nil => rfl
  | cons c cs => exact trimStart_cons_of_not_isBlank (h c rfl)

theorem trimStart_append_of_blank {front : List Char} (h : ∀ c ∈ front, isBlank c = true)
    (cs : List Char) : trimStart (front ++ cs) = trimStart cs :=
  List.dropWhile_append_of_pos h

theorem head_trimStart {cs : List Char} : ∀ c ∈ (trimStart cs).head?, isBlank c = false := by
  intro c at_head
  have := List.head?_dropWhile_not isBlank cs
  rw [trimStart, Option.mem_def] at at_head
  rwa [at_head] at this

theorem exists_eq_append_trimStart (cs : List Char) :
    ∃ front, cs = front ++ trimStart cs ∧ ∀ c ∈ front, isBlank c = true :=
  ⟨_, List.takeWhile_append_dropWhile.symm, fun _ => List.mem_takeWhile_imp⟩

theorem trims_trimBoth (raw : List Char) : Trims raw (trimBoth raw) := by
  obtain ⟨front, opened, front_blank⟩ := exists_eq_append_trimStart raw
  obtain ⟨back, closed, back_blank⟩ := exists_eq_append_trimStart (trimStart raw).reverse
  have kept : trimStart raw = trimBoth raw ++ back.reverse := by
    rw [trimBoth, ← List.reverse_append, ← closed, List.reverse_reverse]
  refine ⟨⟨front, back.reverse, kept ▸ opened, front_blank, by simpa using back_blank⟩, ?_, ?_⟩
  · intro c at_head
    have first : c ∈ (trimStart raw).head? := by
      rw [kept, List.head?_append, Option.mem_def.mp at_head]
      rfl
    exact head_trimStart c first
  · intro c at_end
    rw [trimBoth, List.getLast?_reverse] at at_end
    exact head_trimStart c at_end

theorem trims_iff {raw inner : List Char} : Trims raw inner ↔ trimBoth raw = inner := by
  constructor
  · rintro ⟨⟨front, back, rfl, front_blank, back_blank⟩, first, last⟩
    cases inner with
    | nil =>
      have blank : trimStart back = [] := List.dropWhile_eq_nil_iff.mpr back_blank
      rw [trimBoth, trimStart_append_of_blank front_blank, List.nil_append, blank]
      rfl
    | cons c cs =>
      have reversed : ∀ c ∈ back.reverse, isBlank c = true := by simpa using back_blank
      have opened : trimStart (c :: cs ++ back) = c :: cs ++ back :=
        trimStart_cons_of_not_isBlank (first c rfl)
      rw [trimBoth, trimStart_append_of_blank front_blank, opened, List.reverse_append,
        trimStart_append_of_blank reversed, trimStart_of_head (by rwa [List.head?_reverse]),
        List.reverse_reverse]
  · rintro rfl
    exact trims_trimBoth raw

theorem forall₂_trims_iff {parts trimmed : List (List Char)} :
    List.Forall₂ Trims parts trimmed ↔ parts.map trimBoth = trimmed := by
  have mapped : parts.map trimBoth = trimmed ↔
      List.Forall₂ (· = ·) (parts.map trimBoth) trimmed := by rw [List.forall₂_eq_eq_eq]
  rw [mapped, List.forall₂_map_left_iff]
  simp only [← trims_iff]

/-- `cs` is the number `n` in decimal: one or more digits after an optional sign. -/
def IsNumeral (cs : List Char) (n : Nat) : Prop :=
  ∃ digits, (cs = digits ∨ cs = '+' :: digits) ∧ digits ≠ [] ∧
    (∀ c ∈ digits, c.isDigit = true) ∧ n = Nat.ofDigitChars 10 digits 0

theorem digitValue?_eq (c : Char) :
    digitValue? c = if c.isDigit = true then some (c.toNat - '0'.toNat) else none := by
  have same : ('0' ≤ c ∧ c ≤ '9') ↔ c.isDigit = true := by
    rw [Char.isDigit, Bool.and_eq_true, decide_eq_true_eq, decide_eq_true_eq]
    exact Iff.rfl
  rw [digitValue?]
  exact if_congr same rfl rfl

theorem digitsFrom_eq_some_iff {cs : List Char} {value n : Nat} :
    digitsFrom value cs = some n ↔
      (∀ c ∈ cs, c.isDigit = true) ∧ n = Nat.ofDigitChars 10 cs value := by
  induction cs generalizing value with
  | nil =>
    rw [digitsFrom, Option.some.injEq]
    exact ⟨fun same => ⟨by simp, same.symm⟩, fun numeral => numeral.2.symm⟩
  | cons c cs ih =>
    rw [digitsFrom, digitValue?_eq, Nat.ofDigitChars_cons, List.forall_mem_cons]
    by_cases digit : c.isDigit = true
    · simpa [digit] using ih
    · simp [digit]

theorem digits?_eq_some_iff {cs : List Char} {n : Nat} :
    digits? cs = some n ↔
      cs ≠ [] ∧ (∀ c ∈ cs, c.isDigit = true) ∧ n = Nat.ofDigitChars 10 cs 0 := by
  cases cs with
  | nil => simp [digits?]
  | cons c cs =>
    rw [digits?, List.isEmpty_cons, if_neg Bool.false_ne_true, digitsFrom_eq_some_iff]
    exact (and_iff_right (List.cons_ne_nil c cs)).symm

/-- What follows an optional sign. -/
def afterSign (cs : List Char) : List Char :=
  match cs with
  | '+' :: rest => rest
  | _ => cs

theorem eq_or_eq_cons_afterSign (cs : List Char) :
    cs = afterSign cs ∨ cs = '+' :: afterSign cs := by
  unfold afterSign
  split
  next => exact .inr rfl
  next => exact .inl rfl

/-- The sign is no digit. -/
theorem afterSign_of_digits {cs : List Char} (h : ∀ c ∈ cs, c.isDigit = true) :
    afterSign cs = cs := by
  unfold afterSign
  split
  next => exact absurd (h '+' (by simp)) (by decide)
  next => rfl

theorem isNumeral_iff {cs : List Char} {n : Nat} :
    IsNumeral cs n ↔ digits? (afterSign cs) = some n := by
  rw [digits?_eq_some_iff]
  constructor
  · rintro ⟨digits, rfl | rfl, some_digits, all_digits, value⟩
    · rw [afterSign_of_digits all_digits]
      exact ⟨some_digits, all_digits, value⟩
    · exact ⟨some_digits, all_digits, value⟩
  · exact fun numeral => ⟨_, eq_or_eq_cons_afterSign cs, numeral⟩

theorem unsigned?_eq_some_iff {limit : Nat} {cs : List Char} {n : Nat} :
    unsigned? limit cs = some n ↔ IsNumeral cs n ∧ n ≤ limit := by
  rw [isNumeral_iff]
  show (digits? (afterSign cs)).filter (· ≤ limit) = some n ↔ _
  rw [Option.filter_eq_some_iff, decide_eq_true_eq]

theorem notMem_of_mem_splitOn {sep : Char} {cs part : List Char} (h : part ∈ cs.splitOn sep) :
    sep ∉ part := by
  induction cs generalizing part with
  | nil =>
    obtain rfl := List.mem_singleton.mp h
    exact List.not_mem_nil
  | cons c cs ih =>
    rw [List.splitOn_cons_eq_if_modifyHead] at h
    split at h
    · exact (List.mem_cons.mp h).elim (fun empty => by simp [empty]) ih
    next other =>
      -- the character goes in front of the part that it stands before
      cases rest : cs.splitOn sep with
      | nil => simp [rest] at h
      | cons first others =>
        rw [rest] at h ih
        rcases List.mem_cons.mp h with rfl | later
        · rw [List.mem_cons, not_or]
          exact ⟨fun same => other (by simp [same]), ih List.mem_cons_self⟩
        · exact ih (List.mem_cons_of_mem first later)

/-- What stands between separators is all that they separate. -/
theorem splitOn_eq_iff {sep : Char} {cs : List Char} {parts : List (List Char)} :
    cs.splitOn sep = parts ↔
      [sep].intercalate parts = cs ∧ parts ≠ [] ∧ ∀ part ∈ parts, sep ∉ part := by
  constructor
  · rintro rfl
    exact ⟨List.intercalate_splitOn sep, List.splitOn_ne_nil sep cs, fun _ => notMem_of_mem_splitOn⟩
  · rintro ⟨rfl, nonempty, plain⟩
    exact List.splitOn_intercalate sep plain nonempty

end Text

namespace DispatchConfig

/-- `parts` are what stands between the commas of `cs`. -/
structure IsSplit (cs : List Char) (parts : List (List Char)) : Prop where
  joined : [','].intercalate parts = cs
  nonempty : parts ≠ []
  plain : ∀ part ∈ parts, ',' ∉ part

theorem commaParts_eq_splitOn (cs : List Char) : commaParts cs = cs.splitOn ',' := by
  induction cs with
  | nil => rfl
  | cons c cs ih =>
    rw [commaParts, List.splitOn_cons_eq_if_modifyHead, ih]
    have some_part := List.splitOn_ne_nil ',' cs
    cases split_rest : cs.splitOn ',' with
    | nil => exact absurd split_rest some_part
    | cons part parts => simp

theorem isSplit_iff {cs : List Char} {parts : List (List Char)} :
    IsSplit cs parts ↔ commaParts cs = parts := by
  rw [commaParts_eq_splitOn, Text.splitOn_eq_iff]
  constructor
  · rintro ⟨joined, nonempty, plain⟩
    exact ⟨joined, nonempty, plain⟩
  · rintro ⟨joined, nonempty, plain⟩
    exact ⟨joined, nonempty, plain⟩

/-- `servers` are the parts of `raw` between commas, trimmed and in order, blank ones left out. -/
def IsServerList (raw : String) (servers : List String) : Prop :=
  ∃ parts trimmed, IsSplit raw.toList parts ∧ List.Forall₂ Text.Trims parts trimmed ∧
    servers = (trimmed.filter (! ·.isEmpty)).map String.ofList

theorem serverList_eq (raw : String) :
    serverList raw =
      (((commaParts raw.toList).map Text.trimBoth).filter (! ·.isEmpty)).map String.ofList := by
  rw [serverList]
  induction (commaParts raw.toList).map Text.trimBoth with
  | nil => rfl
  | cons part parts ih =>
    cases part with
    | nil => exact ih
    | cons c cs => exact congrArg (String.ofList (c :: cs) :: ·) ih

theorem isServerList_iff {raw : String} {servers : List String} :
    IsServerList raw servers ↔ serverList raw = servers := by
  rw [serverList_eq]
  constructor
  · rintro ⟨parts, trimmed, split, trims, rfl⟩
    rw [isSplit_iff.mp split, Text.forall₂_trims_iff.mp trims]
  · rintro rfl
    exact ⟨_, _, isSplit_iff.mpr rfl, Text.forall₂_trims_iff.mpr rfl, rfl⟩

/-- `raw` is the number `n`, which is no larger than `limit`. -/
structure IsCount (limit : Nat) (raw : String) (n : Nat) : Prop where
  numeral : ∃ inner, Text.Trims raw.toList inner ∧ Text.IsNumeral inner n
  within : n ≤ limit

theorem isCount_iff {limit n : Nat} {raw : String} :
    IsCount limit raw n ↔ Text.unsigned? limit (Text.trimBoth raw.toList) = some n := by
  rw [Text.unsigned?_eq_some_iff]
  constructor
  · rintro ⟨⟨inner, trims, numeral⟩, within⟩
    exact ⟨Text.trims_iff.mp trims ▸ numeral, within⟩
  · rintro ⟨numeral, within⟩
    exact ⟨⟨_, Text.trims_trimBoth _, numeral⟩, within⟩

theorem IsCount.unique {limit n n' : Nat} {raw : String} (h : IsCount limit raw n)
    (h' : IsCount limit raw n') : n = n' :=
  Option.some.inj ((isCount_iff.mp h).symm.trans (isCount_iff.mp h'))

end DispatchConfig

end ChangeDispatch
