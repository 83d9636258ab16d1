import ChangeDispatch.Proofs.Wire.Layout

/-!
# Values that are passed over

Whatever the grammar allows as a value, `Skip.any` takes it to its last byte: strings that are no
Unicode, numbers of any size, brackets of any depth. The fuel that it is given is enough, because
no value needs more steps than it has bytes.
-/
namespace ChangeDispatch.Json

namespace Text

/-! ### Strings -/

@[simp] theorem skip_quotationMark (rest : Bytes) :
    skip (quotationMark :: rest) = .ok ((), rest) := by
  rw [skip.eq_def]
  simp

theorem skip_escape {e : UInt8} (h : (escaped? e).isSome) (rest : Bytes) :
    skip (backslash :: e :: rest) = skip rest := by
  rw [skip.eq_def]
  simp [h, show backslash ≠ quotationMark by decide]

theorem skip_hex {a b c d : UInt8} (h : (hex4? a b c d).isSome) (rest : Bytes) :
    skip (backslash :: 0x75 :: a :: b :: c :: d :: rest) = skip rest := by
  rw [skip.eq_def]
  simp [h, show backslash ≠ quotationMark by decide, show escaped? 0x75 = none by decide]

theorem skip_plain {b : UInt8} (notEnd : b ≠ quotationMark) (notEscape : b ≠ backslash)
    (shown : ¬ b < 0x20) (rest : Bytes) : skip (b :: rest) = skip rest := by
  rw [skip.eq_def]
  simp only [if_neg notEnd, if_neg notEscape, if_neg shown]

theorem skip_body {body : Bytes} (h : IsBody body) (rest : Bytes) :
    skip (body ++ quotationMark :: rest) = .ok ((), rest) := by
  induction h with
  | nil => exact skip_quotationMark rest
  | plain notEnd notEscape shown _ ih =>
    rw [List.cons_append, skip_plain notEnd notEscape shown, ih]
  | @escape e bs letter _ ih =>
    have escaped : (escaped? e).isSome := by
      revert letter
      simp only [List.mem_cons, List.not_mem_nil, or_false]
      rintro (rfl | rfl | rfl | rfl | rfl | rfl | rfl | rfl) <;> decide
    rw [List.cons_append, List.cons_append, skip_escape escaped, ih]
  | code digits _ ih =>
    simp only [List.cons_append]
    rw [skip_hex digits, ih]

end Text

/-! ### Numbers -/

/-- No digit stands first. -/
def Undigited (bs : Bytes) : Prop := ∀ b, bs.head? = some b → isDigit b = false

theorem dropWhile_digits {ds rest : Bytes} (digits : ∀ d ∈ ds, isDigit d)
    (boundary : Undigited rest) : (ds ++ rest).dropWhile isDigit = rest := by
  rw [List.dropWhile_append_of_pos digits]
  cases rest with
  | nil => rfl
  | cons b rest => simp [boundary b rfl]

theorem Delimits.cases {b : UInt8} {rest : Bytes} (h : Delimits (b :: rest)) :
    b ∈ [0x20, 0x0a, 0x09, 0x0d, 0x2c, 0x5d, 0x7d] := by
  rcases h with space | rfl | rfl | rfl
  · rcases isSpace_iff.mp space with rfl | rfl | rfl | rfl <;> decide
  all_goals decide

theorem Delimits.undigited {rest : Bytes} (h : Delimits rest) : Undigited rest := by
  intro b first
  cases rest with
  | nil => cases first
  | cons c rest =>
    obtain rfl := Option.some.inj first
    have listed := h.cases
    simp only [List.mem_cons, List.not_mem_nil, or_false] at listed
    rcases listed with rfl | rfl | rfl | rfl | rfl | rfl | rfl <;> decide

theorem IsExponent.undigited {exponent rest : Bytes} (h : IsExponent exponent)
    (delimited : Delimits rest) : Undigited (exponent ++ rest) := by
  rcases h with rfl | ⟨e, sign, ds, letter, -, -, rfl⟩
  · exact delimited.undigited
  · intro b first
    obtain rfl := Option.some.inj first
    simp only [List.mem_cons, List.not_mem_nil, or_false] at letter
    rcases letter with rfl | rfl <;> decide

theorem IsFraction.undigited {fraction rest : Bytes} (h : IsFraction fraction)
    (boundary : Undigited rest) : Undigited (fraction ++ rest) := by
  rcases h with rfl | ⟨ds, -, rfl⟩
  · exact boundary
  · intro b first
    obtain rfl := Option.some.inj first
    decide

namespace Number

theorem skipDigits_eq {ds rest : Bytes} (h : Digits ds) (boundary : Undigited rest) :
    skipDigits (ds ++ rest) = .ok ((), rest) := by
  obtain ⟨nonempty, digits⟩ := h
  cases ds with
  | nil => exact absurd rfl nonempty
  | cons d ds =>
    simp only [List.forall_mem_cons] at digits
    simp [skipDigits, digits.1, dropWhile_digits digits.2 boundary]

theorem skipExponent_eq {exponent rest : Bytes} (h : IsExponent exponent)
    (delimited : Delimits rest) : skipExponent (exponent ++ rest) = .ok ((), rest) := by
  rcases h with rfl | ⟨e, sign, ds, letter, signed, digits, rfl⟩
  · cases rest with
    | nil => rfl
    | cons b rest =>
      have listed := delimited.cases
      simp only [List.mem_cons, List.not_mem_nil, or_false] at listed
      rcases listed with rfl | rfl | rfl | rfl | rfl | rfl | rfl <;> rfl
  · have taken := skipDigits_eq digits delimited.undigited
    have marked : e = 0x65 ∨ e = 0x45 := by simpa using letter
    simp only [List.mem_cons, List.not_mem_nil, or_false] at signed
    rcases signed with rfl | rfl | rfl
    · cases ds with
      | nil => exact absurd rfl digits.1
      | cons d ds =>
        have unsigned : ¬(d = 0x2b ∨ d = 0x2d) := by
          have digit := digits.2 d List.mem_cons_self
          rintro (rfl | rfl) <;> exact absurd digit (by decide)
        rw [List.cons_append] at taken
        simp [skipExponent, marked, unsigned, taken]
    all_goals simp [skipExponent, marked, taken]

theorem skipFraction_eq {fraction exponent rest : Bytes} (h : IsFraction fraction)
    (h' : IsExponent exponent) (delimited : Delimits rest) :
    skipFraction (fraction ++ (exponent ++ rest)) = .ok ((), rest) := by
  have last := skipExponent_eq h' delimited
  rcases h with rfl | ⟨ds, digits, rfl⟩
  · -- Nothing that may follow is a point.
    rcases h' with rfl | ⟨e, sign, ds, letter, -, -, rfl⟩
    · cases rest with
      | nil => rfl
      | cons b rest =>
        have listed := delimited.cases
        simp only [List.mem_cons, List.not_mem_nil, or_false] at listed
        rcases listed with rfl | rfl | rfl | rfl | rfl | rfl | rfl <;> exact last
    · simp only [List.mem_cons, List.not_mem_nil, or_false] at letter
      rcases letter with rfl | rfl <;> exact last
  · have taken := skipDigits_eq digits (h'.undigited delimited)
    simp [skipFraction, taken, last, bind, Except.bind]

theorem skip_eq {integer fraction exponent rest : Bytes} (h : IsInteger integer)
    (h' : IsFraction fraction) (h'' : IsExponent exponent) (delimited : Delimits rest) :
    skip (integer ++ (fraction ++ (exponent ++ rest))) = .ok ((), rest) := by
  have last := skipFraction_eq h' h'' delimited
  have boundary := h'.undigited (h''.undigited delimited)
  obtain ⟨⟨nonempty, digits⟩, leading⟩ := h
  generalize fraction ++ (exponent ++ rest) = tail at last boundary
  cases integer with
  | nil => exact absurd rfl nonempty
  | cons d ds =>
    simp only [List.forall_mem_cons] at digits
    by_cases zero : d = 0x30
    · obtain rfl : ds = [] := List.tail_eq_of_cons_eq (leading (congrArg some zero))
      subst zero
      cases tail with
      | nil => exact last
      | cons b tail => simpa [skip, boundary b rfl] using last
    · simpa [skip, zero, digits.1, dropWhile_digits digits.2 boundary] using last

end Number

/-! ### Values of any depth -/

theorem IsNumber.opens {v : Bytes} (h : IsNumber v) :
    ∃ b tail, v = b :: tail ∧ (b = 0x2d ∨ isDigit b) := by
  obtain @⟨sign, integer, fraction, exponent, signed, ⟨⟨nonempty, digits⟩, -⟩, -, -⟩ := h
  simp only [List.mem_cons, List.not_mem_nil, or_false] at signed
  rcases signed with rfl | rfl
  · cases integer with
    | nil => exact absurd rfl nonempty
    | cons d ds => exact ⟨d, _, rfl, .inr (digits d List.mem_cons_self)⟩
  · exact ⟨0x2d, _, rfl, .inl rfl⟩

/-- What may follow a value starts none. -/
theorem IsValue.opens {v : Bytes} (h : IsValue v) : ∃ b tail, v = b :: tail ∧ ¬Delimits v := by
  cases h with
  | word named =>
    simp only [List.mem_cons, List.not_mem_nil, or_false] at named
    rcases named with rfl | rfl | rfl <;>
      exact ⟨_, _, rfl, fun delimits => absurd delimits.cases (by decide)⟩
  | number number =>
    obtain ⟨b, tail, rfl, marked⟩ := number.opens
    refine ⟨_, _, rfl, fun delimits => ?_⟩
    rcases marked with rfl | digit
    · exact absurd delimits.cases (by decide)
    · cases digit.symm.trans (delimits.undigited b rfl)
  | text _ => exact ⟨_, _, rfl, fun delimits => absurd delimits.cases (by decide)⟩
  | list _ _ => exact ⟨_, _, rfl, fun delimits => absurd delimits.cases (by decide)⟩
  | object _ _ _ => exact ⟨_, _, rfl, fun delimits => absurd delimits.cases (by decide)⟩

theorem IsValue.skipSpace_append {v : Bytes} (h : IsValue v) (rest : Bytes) :
    skipSpace (v ++ rest) = v ++ rest := by
  obtain ⟨b, tail, rfl, starts⟩ := h.opens
  exact skipSpace_cons (Bool.eq_false_iff.mpr fun space => starts (.inl space)) _

/-- The first byte of a value, which the blanks before it do not hide. -/
theorem IsValue.first {v : Bytes} (h : IsValue v) (rest : Bytes) :
    ∃ b tail, v = b :: tail ∧ skipSpace (b :: (tail ++ rest)) = b :: (tail ++ rest) := by
  obtain ⟨b, tail, rfl, -⟩ := h.opens
  exact ⟨b, tail, rfl, h.skipSpace_append rest⟩

theorem IsValue.noDelimiter {b : UInt8} {tail : Bytes} (h : IsValue (b :: tail)) :
    b ≠ 0x2c ∧ b ≠ 0x5d := by
  obtain ⟨_, _, -, starts⟩ := h.opens
  exact ⟨fun comma => starts (.inr (.inl comma)), fun close => starts (.inr (.inr (.inl close)))⟩

theorem colon_eq {blanks : Bytes} (blank : Blank blanks) (rest : Bytes) :
    colon (blanks ++ 0x3a :: rest) = .ok ((), rest) := by
  simp [colon, skipSpace_blank blank, skipSpace_cons (b := 0x3a) (by decide)]

namespace Skip

/-- The value is taken in `n` steps, whatever is open around it. -/
def Passes (n : Nat) (v : Bytes) : Prop :=
  ∀ fuel open_ blanks rest, Blank blanks → Delimits rest →
    value (n + fuel) open_ (blanks ++ (v ++ rest)) = after fuel open_ rest

/-- What is left inside the innermost bracket is taken in `n` steps. -/
def Closes (bracket : Bracket) (n : Nat) (tail : Bytes) : Prop :=
  ∀ fuel open_ rest, after (n + fuel) (bracket :: open_) (tail ++ rest) = after fuel open_ rest

theorem leaf_number {v : Bytes} (h : IsNumber v) {rest : Bytes} (delimited : Delimits rest) :
    leaf (v ++ rest) = .ok (none, rest) := by
  obtain @⟨sign, integer, fraction, exponent, signed, integral, fractional, scaled⟩ := h
  have taken := Number.skip_eq integral fractional scaled delimited
  simp only [List.mem_cons, List.not_mem_nil, or_false] at signed
  rcases signed with rfl | rfl
  · obtain ⟨⟨nonempty, digits⟩, -⟩ := integral
    cases integer with
    | nil => exact absurd rfl nonempty
    | cons d ds =>
      have digit : isDigit d := digits d List.mem_cons_self
      have others : d ≠ 0x6e ∧ d ≠ 0x74 ∧ d ≠ 0x66 ∧ d ≠ 0x2d := by
        refine ⟨?_, ?_, ?_, ?_⟩ <;> rintro rfl <;> exact absurd digit (by decide)
      rw [List.cons_append] at taken
      simp [leaf, others, digit, taken, Except.map]
  · simp [leaf, taken, Except.map]

theorem leaf_word {w : String} (h : w ∈ ["null", "true", "false"]) (rest : Bytes) :
    leaf (utf8 w ++ rest) = .ok (none, rest) := by
  simp only [List.mem_cons, List.not_mem_nil, or_false] at h
  rcases h with rfl | rfl | rfl <;> rfl

theorem leaf_text {body : Bytes} (h : IsBody body) (rest : Bytes) :
    leaf (Text.quotationMark :: (body ++ Text.quotationMark :: rest)) = .ok (none, rest) := by
  simp [leaf, Text.skip_body h rest, Except.map, show Text.quotationMark ≠ 0x6e by decide,
    show Text.quotationMark ≠ 0x74 by decide, show Text.quotationMark ≠ 0x66 by decide,
    show Text.quotationMark ≠ 0x2d by decide, show isDigit Text.quotationMark = false by decide]

section Steps

variable {fuel : Nat} {open_ : List Bracket} {bracket : Bracket} {b : UInt8}
  {bs inner inside rest : Bytes}

theorem value_leaf (taken : leaf (skipSpace bs) = .ok (none, rest)) :
    value (fuel + 1) open_ bs = after fuel open_ rest := by
  simp only [value, taken, bind, Except.bind]

theorem value_empty (taken : leaf (skipSpace bs) = .ok (some bracket, inner))
    (closed : skipSpace inner = bracket.closing :: rest) :
    value (fuel + 1) open_ bs = after fuel open_ rest := by
  simp only [value, taken, closed, bind, Except.bind, if_pos]

theorem value_inside (taken : leaf (skipSpace bs) = .ok (some bracket, inner))
    (starts : skipSpace inner = b :: inside) (more : b ≠ bracket.closing)
    (leads : entry bracket (b :: inside) = .ok ((), rest)) :
    value (fuel + 1) open_ bs = value fuel (bracket :: open_) rest := by
  simp only [value, taken, starts, if_neg more, leads, bind, Except.bind]

theorem after_closing (closed : skipSpace bs = bracket.closing :: rest) :
    after (fuel + 1) (bracket :: open_) bs = after fuel open_ rest := by
  have noComma : bracket.closing ≠ 0x2c := by cases bracket <;> decide
  simp only [after, closed, if_neg noComma, if_pos]

theorem after_comma (more : skipSpace bs = 0x2c :: inner)
    (leads : entry bracket inner = .ok ((), rest)) :
    after (fuel + 1) (bracket :: open_) bs = value fuel (bracket :: open_) rest := by
  simp only [after, more, if_pos, leads, bind, Except.bind]

end Steps

theorem Passes.leaf {v : Bytes} (h : IsValue v)
    (taken : ∀ rest, Delimits rest → leaf (v ++ rest) = .ok (none, rest)) : Passes 1 v := by
  intro fuel open_ blanks rest blank delimited
  rw [Nat.add_comm]
  apply value_leaf
  rw [skipSpace_blank blank, h.skipSpace_append, taken rest delimited]

theorem skipSpace_closing (bracket : Bracket) {blanks : Bytes} (blank : Blank blanks)
    (rest : Bytes) :
    skipSpace (blanks ++ [bracket.closing] ++ rest) = bracket.closing :: rest := by
  have noSpace : isSpace bracket.closing = false := by cases bracket <;> decide
  rw [List.append_assoc, skipSpace_blank blank, List.singleton_append, skipSpace_cons noSpace]

theorem Closes.done {bracket : Bracket} {blanks : Bytes} (blank : Blank blanks) :
    Closes bracket 1 (blanks ++ [bracket.closing]) := by
  intro fuel open_ rest
  rw [Nat.add_comm]
  exact after_closing (skipSpace_closing _ blank rest)

/-- A comma, what leads to the next value, and that value. -/
theorem Closes.next {bracket : Bracket} {b₀ head blanks v tail : Bytes} {n k : Nat}
    (blank : Blank b₀) (leads : ∀ bs, entry bracket (head ++ bs) = .ok ((), blanks ++ bs))
    (blank' : Blank blanks) (passes : Passes n v) (closes : Closes bracket k tail)
    (delimits : ∀ rest, Delimits (tail ++ rest)) :
    Closes bracket (1 + (n + k)) (b₀ ++ 0x2c :: (head ++ (v ++ tail))) := by
  intro fuel open_ rest
  have comma : skipSpace (b₀ ++ 0x2c :: (head ++ (v ++ tail)) ++ rest)
      = 0x2c :: (head ++ (v ++ (tail ++ rest))) := by
    rw [List.append_assoc, skipSpace_blank blank, List.cons_append, skipSpace_cons (by decide)]
    simp only [List.append_assoc]
  rw [show 1 + (n + k) + fuel = (n + (k + fuel)) + 1 by omega, after_comma comma (leads _),
    passes _ _ _ _ blank' (delimits rest)]
  exact closes fuel open_ rest

theorem key_eq {b₁ body b₂ : Bytes} (blank : Blank b₁) (h : IsBody body) (blank' : Blank b₂)
    (rest : Bytes) :
    key (b₁ ++ Text.quotationMark :: (body ++ Text.quotationMark :: (b₂ ++ 0x3a :: rest)))
      = .ok ((), rest) := by
  simp [key, skipSpace_blank blank, skipSpace_cons (b := Text.quotationMark) (by decide),
    Text.skip_body h, colon_eq blank', bind, Except.bind]

theorem Closes.elements {vs : List Bytes} {tail : Bytes} (h : Elements false vs tail)
    (each : ∀ v ∈ vs, ∃ n ≤ v.length, Passes n v) : ∃ n ≤ tail.length, Closes .list n tail := by
  induction vs generalizing tail with
  | nil =>
    cases h with
    | done blank => exact ⟨1, by simp, .done blank⟩
  | cons v vs ih =>
    cases h with
    | @next _ _ _ b₀ b₁ tail blank blank' following =>
      simp only [List.forall_mem_cons] at each
      obtain ⟨⟨n, short, passes⟩, each⟩ := each
      obtain ⟨k, shorter, closes⟩ := ih following each
      have leads (bs : Bytes) : entry .list (b₁ ++ bs) = .ok ((), b₁ ++ bs) := rfl
      have next := Closes.next blank leads blank' passes closes following.delimits
      refine ⟨1 + (n + k), ?_, by simpa [lead] using next⟩
      simp only [lead, List.length_append, List.length_singleton]
      omega

theorem Closes.members {ms : List Member} {tail : Bytes} (h : Members false ms tail)
    (keys : ∀ m ∈ ms, IsBody m.key) (each : ∀ m ∈ ms, ∃ n ≤ m.value.length, Passes n m.value) :
    ∃ n ≤ tail.length, Closes .object n tail := by
  induction ms generalizing tail with
  | nil =>
    cases h with
    | done blank => exact ⟨1, by simp, .done blank⟩
  | cons m ms ih =>
    cases h with
    | @next _ _ _ b₀ b₁ b₂ b₃ tail blank blank₁ blank₂ blank₃ following =>
      simp only [List.forall_mem_cons] at each keys
      obtain ⟨⟨n, short, passes⟩, each⟩ := each
      obtain ⟨k, shorter, closes⟩ := ih following keys.2 each
      have leads (bs : Bytes) : entry .object (b₁ ++ Text.quotationMark :: (m.key ++
          Text.quotationMark :: (b₂ ++ 0x3a :: b₃)) ++ bs) = .ok ((), b₃ ++ bs) := by
        simp only [List.append_assoc, List.cons_append]
        exact key_eq blank₁ keys.1 blank₂ _
      have next := Closes.next blank leads blank₃ passes closes following.delimits
      refine ⟨1 + (n + k), ?_, by simpa [lead] using next⟩
      simp only [lead, List.length_append, List.length_cons]
      omega

theorem leaf_list {blanks : Bytes} (blank : Blank blanks) (inner rest : Bytes) :
    Skip.leaf (skipSpace (blanks ++ (0x5b :: inner ++ rest)))
      = .ok (some .list, inner ++ rest) := by
  rw [skipSpace_blank blank, List.cons_append, skipSpace_cons (by decide)]
  rfl

theorem leaf_object {blanks : Bytes} (blank : Blank blanks) (inner rest : Bytes) :
    Skip.leaf (skipSpace (blanks ++ (0x7b :: inner ++ rest)))
      = .ok (some .object, inner ++ rest) := by
  rw [skipSpace_blank blank, List.cons_append, skipSpace_cons (by decide)]
  rfl

theorem Passes.list {vs : List Bytes} {tail : Bytes} (h : Elements true vs tail)
    (values : ∀ v ∈ vs, IsValue v) (each : ∀ v ∈ vs, ∃ n ≤ v.length, Passes n v) :
    ∃ n ≤ (0x5b :: tail).length, Passes n (0x5b :: tail) := by
  cases h with
  | done blank =>
    refine ⟨1, by simp, fun fuel open_ blanks rest blank' _ => ?_⟩
    rw [Nat.add_comm]
    exact value_empty (leaf_list blank' _ _) (skipSpace_closing .list blank rest)
  | @next _ v vs b₀ b₁ tail blank blank₁ following =>
    simp only [List.forall_mem_cons] at each values
    obtain ⟨⟨n, short, passes⟩, each⟩ := each
    obtain ⟨k, shorter, closes⟩ := Closes.elements following each
    refine ⟨1 + (n + k), ?_, fun fuel open_ blanks rest blank' _ => ?_⟩
    · simp only [lead, List.length_append, List.length_cons]
      omega
    · obtain ⟨b, inside, rfl, skipped⟩ := values.1.first (tail ++ rest)
      have inner : skipSpace (b₀ ++ (lead true ++ (b₁ ++ (b :: inside ++ tail))) ++ rest)
          = b :: (inside ++ (tail ++ rest)) := by
        simp only [lead, List.nil_append, List.append_assoc, List.cons_append]
        rw [skipSpace_blank blank, skipSpace_blank blank₁, skipped]
      have passed := passes (k + fuel) (.list :: open_) [] (tail ++ rest) .nil
        (following.delimits rest)
      rw [show 1 + (n + k) + fuel = (n + (k + fuel)) + 1 by omega,
        value_inside (leaf_list blank' _ _) inner values.1.noDelimiter.2 rfl]
      exact passed.trans (closes fuel open_ rest)

theorem Passes.object {ms : List Member} {tail : Bytes} (h : Members true ms tail)
    (keys : ∀ m ∈ ms, IsBody m.key) (each : ∀ m ∈ ms, ∃ n ≤ m.value.length, Passes n m.value) :
    ∃ n ≤ (0x7b :: tail).length, Passes n (0x7b :: tail) := by
  cases h with
  | done blank =>
    refine ⟨1, by simp, fun fuel open_ blanks rest blank' _ => ?_⟩
    rw [Nat.add_comm]
    exact value_empty (leaf_object blank' _ _) (skipSpace_closing .object blank rest)
  | @next _ m ms b₀ b₁ b₂ b₃ tail blank blank₁ blank₂ blank₃ following =>
    simp only [List.forall_mem_cons] at each keys
    obtain ⟨⟨n, short, passes⟩, each⟩ := each
    obtain ⟨k, shorter, closes⟩ := Closes.members following keys.2 each
    refine ⟨1 + (n + k), ?_, fun fuel open_ blanks rest blank' _ => ?_⟩
    · simp only [lead, List.length_append, List.length_cons]
      omega
    · simp only [lead, List.nil_append]
      generalize written : m.key ++ Text.quotationMark :: (b₂ ++ 0x3a :: (b₃ ++ (m.value ++ tail)))
        = inside
      have inner : skipSpace (b₀ ++ (b₁ ++ Text.quotationMark :: inside) ++ rest)
          = Text.quotationMark :: (inside ++ rest) := by
        rw [List.append_assoc, List.append_assoc, skipSpace_blank blank, skipSpace_blank blank₁]
        exact skipSpace_cons (by decide) _
      have leads : entry .object (Text.quotationMark :: (inside ++ rest))
          = .ok ((), b₃ ++ (m.value ++ (tail ++ rest))) := by
        rw [← written]
        simp only [List.append_assoc, List.cons_append]
        exact key_eq .nil keys.1 blank₂ _
      rw [show 1 + (n + k) + fuel = (n + (k + fuel)) + 1 by omega,
        value_inside (leaf_object blank' _ _) inner (by decide) leads,
        passes _ _ _ _ blank₃ (following.delimits rest)]
      exact closes fuel open_ rest

/-- A value is taken in no more steps than it has bytes. -/
theorem Passes.value {v : Bytes} (h : IsValue v) : ∃ n ≤ v.length, Passes n v := by
  have some (v : Bytes) (h : IsValue v) : 1 ≤ v.length := by
    obtain ⟨b, tail, rfl, -⟩ := h.opens
    simp
  induction h with
  | @word w named =>
    exact ⟨1, some _ (.word named), .leaf (.word named) fun rest _ => leaf_word named rest⟩
  | number number =>
    exact ⟨1, some _ (.number number), .leaf (.number number) fun _ => leaf_number number⟩
  | text body =>
    refine ⟨1, by simp, .leaf (.text body) fun rest _ => ?_⟩
    simpa using leaf_text body rest
  | list elements values each => exact Passes.list elements values each
  | object members keys _ each => exact Passes.object members keys each

/-- Any value is passed over, with the blanks before it. -/
theorem any_eq {v : Bytes} (h : IsValue v) {blanks rest : Bytes} (blank : Blank blanks)
    (delimited : Delimits rest) : any (blanks ++ (v ++ rest)) = .ok ((), rest) := by
  obtain ⟨n, short, passes⟩ := Passes.value h
  have enough : 2 * (blanks ++ (v ++ rest)).length + 2
      = n + ((2 * (blanks ++ (v ++ rest)).length + 1 - n) + 1) := by
    simp only [List.length_append]
    omega
  rw [any, enough, passes _ _ _ _ blank delimited, after]

end Skip

end ChangeDispatch.Json
