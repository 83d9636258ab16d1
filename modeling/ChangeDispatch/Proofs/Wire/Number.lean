import ChangeDispatch.Proofs.Wire.Record

/-!
# Decimal numbers are read back

A number below the limit of 64 bits is written as its decimal digits, without a leading
zero, and read digit by digit. Only the reading of such numbers is settled here: fractions,
exponents and longer numbers are never written.
-/
namespace ChangeDispatch.Json

theorem toNat_of_isDigit {c : Char} (h : c.isDigit = true) : 48 ≤ c.toNat ∧ c.toNat ≤ 57 := by
  simp only [Char.isDigit, Bool.and_eq_true, decide_eq_true_eq] at h
  exact h

/-- The one byte of a decimal digit. -/
def digitByte (c : Char) : UInt8 := UInt8.ofNat c.toNat

theorem toNat_digitByte {c : Char} (h : c.isDigit = true) : (digitByte c).toNat = c.toNat := by
  have := toNat_of_isDigit h
  simp only [digitByte, UInt8.toNat_ofNat']
  omega

theorem utf8EncodeChar_of_isDigit {c : Char} (h : c.isDigit = true) :
    String.utf8EncodeChar c = [digitByte c] := by
  have bounds := toNat_of_isDigit h
  exact if_pos (by show c.toNat ≤ 127; omega)

theorem isDigit_digitByte {c : Char} (h : c.isDigit = true) : isDigit (digitByte c) = true := by
  have bounds := toNat_of_isDigit h
  simp [isDigit, UInt8.le_iff_toNat_le, toNat_digitByte h, bounds]

theorem digit_digitByte {c : Char} (h : c.isDigit = true) :
    digit (digitByte c) = c.toNat - '0'.toNat := by
  rw [digit, toNat_digitByte h]
  rfl

theorem utf8_ofList (cs : List Char) :
    utf8 (String.ofList cs) = cs.flatMap String.utf8EncodeChar := by
  simp [utf8, List.utf8Encode]

theorem utf8_digits {cs : List Char} (h : ∀ c ∈ cs, c.isDigit = true) :
    utf8 (String.ofList cs) = cs.map digitByte := by
  rw [utf8_ofList]
  induction cs with
  | nil => rfl
  | cons c cs ih =>
    simp only [List.forall_mem_cons] at h
    simp [utf8EncodeChar_of_isDigit h.1, ih h.2]

/-- The decimal digits of a number. -/
def digitsOf (n : Nat) : List Char := Nat.toDigits 10 n

theorem isDigit_digitsOf (n : Nat) : ∀ c ∈ digitsOf n, c.isDigit = true :=
  fun _ h => Nat.isDigit_of_mem_toDigits (by decide) (by decide) h

theorem writeNatural_eq (n : Nat) : writeNatural n = (digitsOf n).map digitByte := by
  rw [writeNatural, Nat.toString_eq_ofList_toDigits]
  exact utf8_digits (isDigit_digitsOf n)

/-- No number but zero starts with the digit zero. -/
theorem head?_digitsOf (n : Nat) (h : n ≠ 0) : (digitsOf n).head? ≠ some '0' := by
  induction n using Nat.strongRecOn with
  | ind n ih =>
    rw [digitsOf, Nat.toDigits_eq_if (by decide)]
    split
    · simpa using h
    · have next := ih (n / 10) (by omega) (by omega)
      cases high : digitsOf (n / 10) with
      | nil => exact absurd high Nat.toDigits_ne_nil
      | cons c cs =>
        rw [high] at next
        simpa [show Nat.toDigits 10 (n / 10) = c :: cs from high] using next

namespace Number

/-- Digits only make the number larger that they are read into. -/
theorem le_ofDigitChars (cs : List Char) (value : Nat) : value ≤ Nat.ofDigitChars 10 cs value := by
  rw [Nat.ofDigitChars_eq_ofDigitChars_zero]
  have : value ≤ 10 ^ cs.length * value := Nat.le_mul_of_pos_left _ (Nat.pow_pos (by decide))
  omega

/-- A digit is neither a blank nor a sign nor a letter. -/
theorem opens_of_isDigit {b : UInt8} (h : isDigit b = true) :
    isSpace b = false ∧ b ≠ 0x2d ∧ b ≠ 0x6e := by
  refine ⟨?_, ?_, ?_⟩
  · rw [Bool.eq_false_iff]
    intro space
    simp only [isSpace, Bool.or_eq_true, beq_iff_eq] at space
    rcases space with ((rfl | rfl) | rfl) | rfl <;> exact absurd h (by decide)
  all_goals rintro rfl; exact absurd h (by decide)

theorem not_isDigit_of_delimits {b : UInt8} {rest : Bytes} (h : Delimits (b :: rest)) :
    isDigit b = false := by
  rcases h with space | rfl | rfl | rfl
  · cases digit : isDigit b with
    | false => rfl
    | true => cases (opens_of_isDigit digit).1.symm.trans space
  all_goals decide

/-- All the digits of a number below the limit are taken. -/
theorem significant_digits {rest : Bytes} (delimited : Delimits rest) {cs : List Char}
    (h : ∀ c ∈ cs, c.isDigit = true) {value : Nat} (below : Nat.ofDigitChars 10 cs value < limit) :
    significant value (cs.map digitByte ++ rest)
      = (Nat.ofDigitChars 10 cs value, cs.length, rest) := by
  induction cs generalizing value with
  | nil =>
    cases rest with
    | nil => rfl
    | cons b rest => simp [significant, not_isDigit_of_delimits delimited]
  | cons c cs ih =>
    simp only [List.forall_mem_cons] at h
    rw [Nat.ofDigitChars_cons] at below ⊢
    have small : 10 * value + digit (digitByte c) < limit := by
      rw [digit_digitByte h.1]
      exact Nat.lt_of_le_of_lt (le_ofDigitChars cs _) below
    rw [List.map_cons, List.cons_append, significant, if_pos ⟨isDigit_digitByte h.1, small⟩,
      digit_digitByte h.1, ih h.2 below]
    rfl

/-- A number that ends here is an integer. -/
theorem afterIntegral_delimited {rest : Bytes} (delimited : Delimits rest) (n : Nat) :
    afterIntegral true n rest = .ok (.natural n, rest) := by
  cases rest with
  | nil => rfl
  | cons b rest =>
    rcases delimited with space | rfl | rfl | rfl
    · rcases isSpace_iff.mp space with rfl | rfl | rfl | rfl <;> rfl
    all_goals rfl

/-- The digits of a number that is not zero. -/
theorem unsigned_digits {rest : Bytes} (delimited : Delimits rest) {c : Char} {cs : List Char}
    (h : ∀ d ∈ c :: cs, d.isDigit = true) (nonzero : c ≠ '0')
    (below : Nat.ofDigitChars 10 (c :: cs) 0 < limit) :
    unsigned true ((c :: cs).map digitByte ++ rest)
      = .ok (.natural (Nat.ofDigitChars 10 (c :: cs) 0), rest) := by
  have digits := significant_digits delimited h below
  have isDigit := isDigit_digitByte (h c List.mem_cons_self)
  have noZero : digitByte c ≠ 0x30 := by
    intro zero
    have same := toNat_digitByte (h c List.mem_cons_self)
    rw [zero] at same
    exact nonzero (Char.toNat_inj.mp same.symm)
  rw [List.map_cons, List.cons_append] at digits ⊢
  simp only [unsigned, if_neg noZero, if_pos isDigit, digits]
  cases rest with
  | nil => rfl
  | cons b rest =>
    simpa [not_isDigit_of_delimits delimited] using afterIntegral_delimited delimited _

end Number

theorem Reads.zero : Reads natural (writeNatural 0) 0 where
  reads rest delimited := by
    cases rest with
    | nil => rfl
    | cons b rest =>
      rcases delimited with space | rfl | rfl | rfl
      · rcases isSpace_iff.mp space with rfl | rfl | rfl | rfl <;> rfl
      all_goals rfl
  opens := ⟨0x30, [], rfl, by decide, by decide⟩

/-- Digits that do not start with a zero are read as their number. -/
theorem Reads.digits {c : Char} {cs : List Char} (h : ∀ d ∈ c :: cs, d.isDigit = true)
    (nonzero : c ≠ '0') (below : Nat.ofDigitChars 10 (c :: cs) 0 < Number.limit) :
    Reads natural ((c :: cs).map digitByte) (Nat.ofDigitChars 10 (c :: cs) 0) := by
  have first := isDigit_digitByte (h c List.mem_cons_self)
  obtain ⟨noSpace, noMinus, noNull⟩ := Number.opens_of_isDigit first
  constructor
  · intro rest delimited
    have taken := Number.unsigned_digits delimited h nonzero below
    rw [List.map_cons, List.cons_append] at taken ⊢
    simp [Json.natural, skipSpace_cons noSpace, first, Number.read, noMinus, taken, bind,
      Except.bind, pure, Except.pure]
  · exact ⟨digitByte c, _, rfl, noSpace, noNull⟩

/-- A number is read back from its decimal digits. -/
theorem Reads.natural {n : Nat} (below : n < Number.limit) :
    Reads natural (writeNatural n) n := by
  by_cases zero : n = 0
  · rw [zero]
    exact .zero
  · have value : Nat.ofDigitChars 10 (digitsOf n) 0 = n := Nat.ofDigitChars_ten_toDigits
    have leading := head?_digitsOf n zero
    have digits := isDigit_digitsOf n
    rw [writeNatural_eq]
    cases written : digitsOf n with
    | nil => exact absurd written Nat.toDigits_ne_nil
    | cons c cs =>
      rw [written] at value leading digits
      have read := Reads.digits digits (by simpa using leading) (by rwa [value])
      rwa [value] at read

/-- The decimal digits of a number are a number of the grammar. -/
theorem isNumber_writeNatural (n : Nat) : IsNumber (writeNatural n) := by
  have digits : Digits (writeNatural n) := by
    rw [writeNatural_eq]
    refine ⟨fun none => Nat.toDigits_ne_nil (List.map_eq_nil_iff.mp none), ?_⟩
    intro d written
    obtain ⟨c, member, rfl⟩ := List.mem_map.mp written
    exact isDigit_digitByte (isDigit_digitsOf n c member)
  have integer : IsInteger (writeNatural n) := by
    refine ⟨digits, fun leading => ?_⟩
    by_cases zero : n = 0
    · rw [zero]
      rfl
    · refine absurd ?_ (head?_digitsOf n zero)
      rw [writeNatural_eq, List.head?_map] at leading
      obtain ⟨c, first, same⟩ := Option.map_eq_some_iff.mp leading
      have value := toNat_digitByte (isDigit_digitsOf n c (List.mem_of_head? first))
      rw [same] at value
      rw [first, show c = '0' from Char.toNat_inj.mp value.symm]
  have number := IsNumber.mk (List.mem_cons_self (a := []) (l := [[0x2d]])) integer (.inl rfl)
    (.inl rfl)
  simpa using number

end ChangeDispatch.Json
