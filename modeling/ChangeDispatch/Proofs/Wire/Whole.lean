import ChangeDispatch.Proofs.Wire.Record
import ChangeDispatch.Proofs.Wire.Skip

/-!
# Values are read whole or not at all

Whatever value the grammar allows where a known one is expected, a reader that accepts it has
taken it to its last byte: the second half of a surrogate pair, the fraction of a number or the
elements of a list are never left for whoever reads on. So what stands after a value is read
from the same place by whoever knows the value and whoever passes over it.
-/
namespace ChangeDispatch.Json

/-! ### Strings -/

namespace Text

theorem prepend_ok {bs cs r : Bytes} {x : Except Problem (Bytes × Bytes)}
    (h : prepend bs x = .ok (cs, r)) : ∃ cs', x = .ok (cs', r) := by
  cases x with
  | error problem => cases h
  | ok taken =>
    cases h
    exact ⟨_, rfl⟩

/-- What is kept of a string could be passed over as well. -/
theorem skip_of_content {bs cs r : Bytes} (h : content bs = .ok (cs, r)) :
    skip bs = .ok ((), r) := by
  fun_induction content bs generalizing cs r
  case case2 rest =>
    cases h
    exact skip_quotationMark rest
  case case4 escaped _ ih =>
    obtain ⟨_, taken⟩ := prepend_ok h
    rw [skip_escape (by simp [escaped]), ih taken]
  case case10 first _ _ _ _ _ _ _ _ second _ _ _ ih =>
    obtain ⟨_, taken⟩ := prepend_ok h
    rw [skip_hex (by simp [first]), skip_hex (by simp [second]), ih taken]
  case case15 value _ _ _ _ ih =>
    obtain ⟨_, taken⟩ := prepend_ok h
    rw [skip_hex (by simp [value]), ih taken]
  case case19 notEnd notEscape shown ih =>
    obtain ⟨_, taken⟩ := prepend_ok h
    rw [skip_plain notEnd notEscape shown, ih taken]
  all_goals cases h

/-- A string that is read ends where the grammar says. -/
theorem rest_of_read {body rest r : Bytes} {s : String} (h : IsBody body)
    (taken : read (body ++ quotationMark :: rest) = .ok (s, r)) : r = rest := by
  simp only [read, bind, Except.bind] at taken
  split at taken
  next => cases taken
  next pair kept =>
    have passed := (skip_of_content kept).symm.trans (skip_body h rest)
    have same : pair.2 = rest := congrArg Prod.snd (Except.ok.inj passed)
    split at taken <;> cases taken
    exact same

end Text

/-! ### Numbers -/

namespace Number

/-- Only digits that nothing extends are an integer. -/
theorem exponentPart_float {p : Bool} {k : Nat} {e : Int} {bs r : Bytes} {num : Number}
    (h : exponentPart p k e bs = .ok (num, r)) : ∃ f, num = .float f := by
  simp only [exponentPart, bind, Except.bind, pure, Except.pure, throw, throwThe,
    MonadExceptOf.throw] at h
  repeat' split at h
  all_goals try cases h
  all_goals exact ⟨_, rfl⟩

theorem withExponent_float {p : Bool} {k : Nat} {e : Int} {bs r : Bytes} {num : Number}
    (h : withExponent p k e bs = .ok (num, r)) : ∃ f, num = .float f := by
  simp only [withExponent, Except.map] at h
  repeat' split at h
  all_goals first | exact exponentPart_float h | cases h
  all_goals exact ⟨_, rfl⟩

theorem fractionPart_float {p : Bool} {k : Nat} {e : Int} {bs r : Bytes} {num : Number}
    (h : fractionPart p k e bs = .ok (num, r)) : ∃ f, num = .float f := by
  simp only [fractionPart] at h
  split at h
  · cases h
  · split at h
    · cases h
    · exact withExponent_float h

theorem longIntegral_float {p : Bool} {k : Nat} {bs r : Bytes} {num : Number}
    (h : longIntegral p k bs = .ok (num, r)) : ∃ f, num = .float f := by
  simp only [longIntegral] at h
  split at h
  · split at h
    · exact fractionPart_float h
    · exact withExponent_float h
  · exact withExponent_float h

/-- An integer ends where neither a point nor an exponent follows. -/
theorem afterIntegral_natural {p : Bool} {k n : Nat} {bs r : Bytes}
    (h : afterIntegral p k bs = .ok (.natural n, r)) :
    p = true ∧ r = bs ∧ ∀ b, bs.head? = some b → b ∉ [0x2e, 0x65, 0x45] := by
  have unsigned (integral : afterIntegral.integral p k = .natural n) : p = true := by
    unfold afterIntegral.integral at integral
    split at integral
    next positive => exact positive
    next => split at integral <;> cases integral
  simp only [afterIntegral] at h
  split at h
  next b rest =>
    split at h
    next =>
      obtain ⟨_, float⟩ := fractionPart_float h
      cases float
    next noPoint =>
      split at h
      next =>
        obtain ⟨_, float⟩ := exponentPart_float h
        cases float
      next noExponent =>
        obtain ⟨integral, rfl⟩ := Prod.mk.inj (Except.ok.inj h)
        refine ⟨unsigned integral, rfl, fun c first => ?_⟩
        obtain rfl := Option.some.inj first
        simpa [noPoint] using noExponent
  next =>
    obtain ⟨integral, rfl⟩ := Prod.mk.inj (Except.ok.inj h)
    exact ⟨unsigned integral, rfl, nofun⟩

/-- Digits that fit are taken to the last, if no digit is left. -/
theorem significant_rest {value v k : Nat} {bs after : Bytes}
    (h : significant value bs = (v, k, after)) (boundary : Undigited after) :
    after = bs.dropWhile isDigit := by
  induction bs generalizing value v k with
  | nil =>
    cases h
    rfl
  | cons b bs ih =>
    rw [significant] at h
    split at h
    next digit =>
      cases h
      rw [List.dropWhile_cons_of_pos digit.1]
      exact ih rfl
    next =>
      cases h
      rw [List.dropWhile_cons_of_neg (by simp [boundary b rfl])]

/-- A natural number is no more than its digits. -/
theorem unsigned_natural {p : Bool} {n : Nat} {ds tail r : Bytes} (integer : IsInteger ds)
    (boundary : Undigited tail) (h : unsigned p (ds ++ tail) = .ok (.natural n, r)) :
    p = true ∧ r = tail ∧ ∀ b, tail.head? = some b → b ∉ [0x2e, 0x65, 0x45] := by
  obtain ⟨⟨nonempty, digits⟩, leading⟩ := integer
  cases ds with
  | nil => exact absurd rfl nonempty
  | cons d ds =>
    simp only [List.forall_mem_cons] at digits
    by_cases zero : d = 0x30
    · obtain rfl : ds = [] := List.tail_eq_of_cons_eq (leading (congrArg some zero))
      subst zero
      have ended : afterIntegral p 0 tail = .ok (.natural n, r) := by
        cases tail with
        | nil => exact h
        | cons b tail => simpa [unsigned, boundary b rfl] using h
      exact afterIntegral_natural ended
    · rw [List.cons_append] at h
      simp only [unsigned, if_neg zero, if_pos digits.1] at h
      have all : (d :: ds ++ tail).dropWhile isDigit = tail :=
        dropWhile_digits (List.forall_mem_cons.mpr digits) boundary
      cases taken : significant 0 (d :: (ds ++ tail)) with
      | mk value counted =>
        obtain ⟨count, after⟩ := counted
        simp only [taken] at h
        have ended (last : Undigited after) : after = tail :=
          (significant_rest taken last).trans all
        split at h
        next b after =>
          split at h
          next =>
            obtain ⟨_, float⟩ := longIntegral_float h
            cases float
          next noDigit =>
            obtain rfl := ended fun c first => by
              obtain rfl := Option.some.inj first
              exact Bool.eq_false_iff.mpr noDigit
            exact afterIntegral_natural h
        next =>
          obtain rfl := ended nofun
          exact afterIntegral_natural h

theorem rest_of_natural {v rest r : Bytes} {n : Nat} (h : IsNumber v) (delimited : Delimits rest)
    (taken : read (v ++ rest) = .ok (.natural n, r)) : r = rest := by
  obtain @⟨sign, integer, fraction, exponent, signed, integral, fractional, scaled⟩ := h
  have boundary := fractional.undigited (scaled.undigited delimited)
  simp only [List.append_assoc] at taken
  have positive : sign = [] ∧ unsigned true (integer ++ (fraction ++ (exponent ++ rest)))
      = .ok (.natural n, r) := by
    simp only [List.mem_cons, List.not_mem_nil, or_false] at signed
    rcases signed with rfl | rfl
    · refine ⟨rfl, ?_⟩
      obtain ⟨⟨nonempty, digits⟩, -⟩ := integral
      cases integer with
      | nil => exact absurd rfl nonempty
      | cons d ds =>
        have unsigned : d ≠ 0x2d := by
          rintro rfl
          exact absurd (digits _ List.mem_cons_self) (by decide)
        simpa [read, unsigned] using taken
    · cases (unsigned_natural integral boundary taken).1
  obtain ⟨-, rfl, ends⟩ := unsigned_natural integral boundary positive.2
  rcases fractional with rfl | ⟨ds, -, rfl⟩
  · rcases scaled with rfl | ⟨e, sign, ds, letter, -, -, rfl⟩
    · rfl
    · exact absurd (List.mem_cons_of_mem _ letter) (ends e rfl)
  · exact absurd (ends 0x2e rfl) (by decide)

end Number

/-! ### The kind of a value by its first byte -/

theorem IsValue.kind {b : UInt8} {tail : Bytes} (h : IsValue (b :: tail)) :
    (∃ w ∈ ["null", "true", "false"], b :: tail = utf8 w) ∨
      ((b = 0x2d ∨ isDigit b) ∧ IsNumber (b :: tail)) ∨
      (b = Text.quotationMark ∧ ∃ body, IsBody body ∧ tail = body ++ [Text.quotationMark]) ∨
      (b = 0x5b ∧ ∃ vs, Elements true vs tail ∧ ∀ v ∈ vs, IsValue v) ∨
      (b = 0x7b ∧ ∃ ms, Members true ms tail ∧ (∀ m ∈ ms, IsBody m.key) ∧
        ∀ m ∈ ms, IsValue m.value) := by
  generalize written : b :: tail = v at h
  cases h with
  | word named => exact .inl ⟨_, named, rfl⟩
  | number number =>
    obtain ⟨b', tail', rfl, marked⟩ := number.opens
    obtain ⟨rfl, rfl⟩ := List.cons.inj written
    exact .inr (.inl ⟨marked, number⟩)
  | text body =>
    obtain ⟨rfl, rfl⟩ := List.cons.inj written
    exact .inr (.inr (.inl ⟨rfl, _, body, rfl⟩))
  | list elements values =>
    obtain ⟨rfl, rfl⟩ := List.cons.inj written
    exact .inr (.inr (.inr (.inl ⟨rfl, _, elements, values⟩)))
  | object members keys values =>
    obtain ⟨rfl, rfl⟩ := List.cons.inj written
    exact .inr (.inr (.inr (.inr ⟨rfl, _, members, keys, values⟩)))

theorem first_of_word {w : String} {b : UInt8} {tail : Bytes} (h : w ∈ ["null", "true", "false"])
    (written : b :: tail = utf8 w) : b ∈ [0x6e, 0x74, 0x66] := by
  have first := congrArg List.head? written
  simp only [List.mem_cons, List.not_mem_nil, or_false] at h
  rcases h with rfl | rfl | rfl <;> obtain rfl := Option.some.inj first <;> decide

theorem IsValue.body {tail : Bytes} (h : IsValue (Text.quotationMark :: tail)) :
    ∃ body, IsBody body ∧ tail = body ++ [Text.quotationMark] := by
  rcases h.kind with ⟨w, named, written⟩ | ⟨marked, -⟩ | ⟨-, body⟩ | ⟨first, -⟩ | ⟨first, -⟩
  · exact absurd (first_of_word named written) (by decide)
  · exact absurd marked (by decide)
  · exact body
  all_goals exact absurd first (by decide)

theorem IsValue.elements {tail : Bytes} (h : IsValue (0x5b :: tail)) :
    ∃ vs, Elements true vs tail ∧ ∀ v ∈ vs, IsValue v := by
  rcases h.kind with ⟨w, named, written⟩ | ⟨marked, -⟩ | ⟨first, -⟩ | ⟨-, elements⟩ | ⟨first, -⟩
  · exact absurd (first_of_word named written) (by decide)
  · exact absurd marked (by decide)
  · exact absurd first (by decide)
  · exact elements
  · exact absurd first (by decide)

theorem IsValue.members {tail : Bytes} (h : IsValue (0x7b :: tail)) :
    ∃ ms, Members true ms tail ∧ (∀ m ∈ ms, IsBody m.key) ∧ ∀ m ∈ ms, IsValue m.value := by
  rcases h.kind with ⟨w, named, written⟩ | ⟨marked, -⟩ | ⟨first, -⟩ | ⟨first, -⟩ | ⟨-, members⟩
  · exact absurd (first_of_word named written) (by decide)
  · exact absurd marked (by decide)
  · exact absurd first (by decide)
  · exact absurd first (by decide)
  · exact members

theorem IsValue.null {tail : Bytes} (h : IsValue (0x6e :: tail)) : tail = ull := by
  rcases h.kind with ⟨w, named, written⟩ | ⟨marked, -⟩ | ⟨first, -⟩ | ⟨first, -⟩ | ⟨first, -⟩
  · simp only [List.mem_cons, List.not_mem_nil, or_false] at named
    rcases named with rfl | rfl | rfl
    · exact (List.cons.inj written).2
    all_goals exact absurd (List.cons.inj written).1 (by decide)
  · exact absurd marked (by decide)
  all_goals exact absurd first (by decide)

theorem IsValue.number_of_first {b : UInt8} {tail : Bytes} (h : IsValue (b :: tail))
    (marked : b = 0x2d ∨ isDigit b) : IsNumber (b :: tail) := by
  rcases h.kind with ⟨w, named, written⟩ | ⟨-, number⟩ | ⟨rfl, -⟩ | ⟨rfl, -⟩ | ⟨rfl, -⟩
  · have first := first_of_word named written
    simp only [List.mem_cons, List.not_mem_nil, or_false] at first
    rcases first with rfl | rfl | rfl <;> exact absurd marked (by decide)
  · exact number
  all_goals exact absurd marked (by decide)

/-! ### Readers -/

theorem ok_of_bind {α β : Type} {x : Except Problem α} {f : α → Except Problem β} {y : β}
    (h : (x >>= f) = .ok y) : ∃ a, x = .ok a ∧ f a = .ok y := by
  cases x with
  | error problem => cases h
  | ok a => exact ⟨a, rfl, h⟩

theorem ok_of_map {α β : Type} {x : Except Problem α} {f : α → β} {y : β}
    (h : x.map f = .ok y) : ∃ a, x = .ok a ∧ f a = y := by
  cases x with
  | error problem => cases h
  | ok a => exact ⟨a, rfl, Except.ok.inj h⟩

/-- The reader leaves out blanks before a value, and takes the value whole or not at all. -/
structure Whole {α : Type} (read : Reader α) : Prop where
  blanks : ∀ {blanks : Bytes} (bs : Bytes), Blank blanks → read (blanks ++ bs) = read bs
  rest : ∀ {v rest : Bytes} {x : α} {r : Bytes}, IsValue v → Delimits rest →
    read (v ++ rest) = .ok (x, r) → r = rest

section Readers

variable {α β : Type} {read : Reader α}

theorem rest_of_interpreted {expected : String} {interpret : String → Except Problem α}
    {body rest r : Bytes} {x : α} (h : IsBody body)
    (taken : interpreted expected interpret
      (Text.quotationMark :: (body ++ Text.quotationMark :: rest)) = .ok (x, r)) : r = rest := by
  simp only [Json.interpreted, skipSpace_cons (b := Text.quotationMark) (by decide), if_pos]
    at taken
  obtain ⟨⟨s, r'⟩, named, taken⟩ := ok_of_bind taken
  obtain ⟨y, -, taken⟩ := ok_of_bind taken
  cases taken
  exact Text.rest_of_read h named

theorem Whole.interpreted (expected : String) (interpret : String → Except Problem α) :
    Whole (interpreted expected interpret) where
  blanks bs blank := by simp only [Json.interpreted, skipSpace_blank blank]
  rest {v rest x r} value _ taken := by
    obtain ⟨b, tail, rfl, skipped⟩ := value.first rest
    rw [List.cons_append] at taken
    by_cases quoted : b = Text.quotationMark
    · subst quoted
      obtain ⟨body, isBody, rfl⟩ := value.body
      rw [List.append_assoc] at taken
      exact rest_of_interpreted isBody taken
    · simp only [Json.interpreted, skipped, if_neg quoted] at taken
      cases taken

theorem Whole.string : Whole string := .interpreted "a string" .ok

theorem Whole.optional (h : Whole read) : Whole (optional read) where
  blanks bs blank := by simp only [Json.optional, skipSpace_blank blank]
  rest {v rest x r} value delimited taken := by
    obtain ⟨b, tail, rfl, skipped⟩ := value.first rest
    simp only [Json.optional, List.cons_append, skipped] at taken
    split at taken
    next null =>
      subst null
      rw [value.null] at taken
      cases taken
      rfl
    next =>
      obtain ⟨⟨y, r'⟩, there, same⟩ := ok_of_map taken
      cases same
      exact h.rest value delimited there

theorem Whole.natural : Whole natural where
  blanks bs blank := by simp only [Json.natural, skipSpace_blank blank]
  rest {v rest x r} value delimited taken := by
    obtain ⟨b, tail, rfl, skipped⟩ := value.first rest
    simp only [Json.natural, List.cons_append, skipped] at taken
    split at taken
    next marked =>
      obtain ⟨⟨n, r'⟩, number, taken⟩ := ok_of_bind taken
      cases n with
      | natural n =>
        cases taken
        exact Number.rest_of_natural (value.number_of_first marked) delimited number
      | negative n => cases taken
      | float f => cases taken
    next => cases taken

theorem Whole.null : Whole null where
  blanks bs blank := by simp only [Json.null, skipSpace_blank blank]
  rest {v rest x r} value delimited taken := by
    obtain ⟨b, tail, rfl, skipped⟩ := value.first rest
    simp only [Json.null, List.cons_append, skipped] at taken
    split at taken
    next null =>
      subst null
      rw [value.null] at taken
      cases taken
      rfl
    next => cases taken

/-- A name in an object ends with the object. -/
theorem rest_of_named {choose : String → Except Problem α} {tail rest r : Bytes} {x : α}
    (h : IsValue (0x7b :: tail))
    (taken : Json.variant choose (0x7b :: (tail ++ rest)) = .ok (x, r)) : r = rest := by
  simp only [Json.variant, skipSpace_cons (b := 0x7b) (by decide),
    if_neg (show (0x7b : UInt8) ≠ Text.quotationMark by decide), if_pos] at taken
  obtain ⟨⟨y, r₁⟩, named, taken⟩ := ok_of_bind taken
  obtain ⟨⟨⟨⟩, r₂⟩, marked, taken⟩ := ok_of_bind taken
  obtain ⟨⟨⟨⟩, r₃⟩, nulled, taken⟩ := ok_of_bind taken
  obtain ⟨ms, members, keys, values⟩ := h.members
  cases members with
  | done blank =>
    rw [List.append_assoc, (Whole.interpreted _ choose).blanks _ blank] at named
    cases named
  | @next _ m ms b₀ b₁ b₂ b₃ tail blank₀ blank₁ blank₂ blank₃ following =>
    simp only [List.forall_mem_cons] at keys values
    simp only [lead, List.nil_append, List.append_assoc, List.cons_append] at named
    rw [(Whole.interpreted _ choose).blanks _ blank₀,
      (Whole.interpreted _ choose).blanks _ blank₁] at named
    obtain rfl := rest_of_interpreted keys.1 named
    rw [colon_eq blank₂] at marked
    cases marked
    rw [Whole.null.blanks _ blank₃] at nulled
    obtain rfl := Whole.null.rest values.1 (following.delimits rest) nulled
    cases following with
    | done blank =>
      rw [List.append_assoc, skipSpace_blank blank, List.singleton_append,
        skipSpace_cons (b := 0x7d) (by decide)] at taken
      cases taken
      rfl
    | next blank _ _ _ _ =>
      rw [List.append_assoc, skipSpace_blank blank, lead, List.append_assoc, List.singleton_append,
        skipSpace_cons (b := 0x2c) (by decide)] at taken
      cases taken

theorem Whole.variant (choose : String → Except Problem α) : Whole (variant choose) where
  blanks bs blank := by simp only [Json.variant, skipSpace_blank blank]
  rest {v rest x r} value delimited taken := by
    obtain ⟨b, tail, rfl, skipped⟩ := value.first rest
    rw [List.cons_append] at taken
    by_cases named : b = 0x7b
    · subst named
      exact rest_of_named value taken
    · simp only [Json.variant, skipped, if_neg named] at taken
      split at taken
      next => exact (Whole.interpreted _ choose).rest value delimited taken
      next => cases taken

/-- What was read may be put somewhere. -/
theorem Whole.andThen (h : Whole read) (put : α → β) :
    Whole fun bs => do let (v, rest) ← read bs; return (put v, rest) where
  blanks bs blank := by simp only [h.blanks bs blank]
  rest {v rest x r} value delimited taken := by
    obtain ⟨⟨y, r'⟩, there, same⟩ := ok_of_bind taken
    cases same
    exact h.rest value delimited there

end Readers
end ChangeDispatch.Json
