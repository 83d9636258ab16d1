import ChangeDispatch.Proofs.Wire.Layout

/-!
# Values and keys

`Reads` relates a reader to the bytes of one value: it takes exactly those bytes, whatever
delimits them. Strings are read in any of their spellings, and so are the keys of an object,
whatever blanks stand around the comma before them.
-/
namespace ChangeDispatch.Json

/-- The reader takes `bytes` for `value`. They start with neither a blank nor the letter of
`null`, so that an optional value can be told from none. -/
structure Reads {α : Type} (read : Reader α) (bytes : Bytes) (value : α) : Prop where
  reads : ∀ rest, Delimits rest → read (bytes ++ rest) = .ok (value, rest)
  opens : ∃ b tail, bytes = b :: tail ∧ isSpace b = false ∧ b ≠ 0x6e

section Values

variable {α : Type} {read : Reader α} {bytes : Bytes} {value : α}

theorem IsText.interpreted {s : String} {interpret : String → Except Problem α}
    (h : IsText s bytes) (expected : String) (meaning : interpret s = .ok value) :
    Reads (interpreted expected interpret) bytes value := by
  obtain ⟨body, named, rfl⟩ := h
  constructor
  · intro rest _
    simp [Json.interpreted, skipSpace_cons (b := Text.quotationMark) (by decide), named.read,
      meaning, bind, Except.bind, pure, Except.pure]
  · exact ⟨Text.quotationMark, _, rfl, by decide, by decide⟩

theorem IsText.variant {s : String} {choose : String → Except Problem α} (h : IsText s bytes)
    (meaning : choose s = .ok value) : Reads (variant choose) bytes value := by
  have named := h.interpreted "variant identifier" meaning
  obtain ⟨body, -, rfl⟩ := h
  constructor
  · intro rest delimited
    have taken := named.reads rest delimited
    rw [List.cons_append] at taken ⊢
    simpa [Json.variant, skipSpace_cons (b := Text.quotationMark) (by decide)] using taken
  · exact named.opens

/-- A value that is there is read as such where it may be missing. -/
theorem Reads.optional (h : Reads read bytes value) :
    Reads (optional read) bytes (some value) where
  reads rest delimited := by
    obtain ⟨b, tail, rfl, noSpace, noNull⟩ := h.opens
    have taken := h.reads rest delimited
    rw [List.cons_append] at taken ⊢
    simp [Json.optional, skipSpace_cons noSpace, noNull, taken, Except.map]
  opens := h.opens

/-- A document of one value. -/
theorem Reads.document (h : Reads read bytes value) : document read bytes = .ok value := by
  have taken := h.reads [] trivial
  rw [List.append_nil] at taken
  simp [Json.document, taken, bind, Except.bind, skipSpace, pure, Except.pure]

end Values

/-! ### Keys -/

namespace Shape

theorem nextKey_end (first : Bool) {blanks : Bytes} (blank : Blank blanks) (rest : Bytes) :
    nextKey first (blanks ++ 0x7d :: rest) = .ok (none, rest) := by
  simp [nextKey, skipSpace_blank blank, skipSpace_cons (b := 0x7d) (by decide)]

/-- What follows the quotation mark of a key is read as a string, whatever blanks stand before. -/
theorem nextKey_quoted (first : Bool) {b₀ b₁ : Bytes} (blank₀ : Blank b₀) (blank₁ : Blank b₁)
    (rest : Bytes) :
    nextKey first (b₀ ++ (lead first ++ (b₁ ++ Text.quotationMark :: rest)))
      = (Text.read rest).map fun (s, rest) => (some s, rest) := by
  have space : isSpace Text.quotationMark = false := by decide
  cases first with
  | true =>
    simp [lead, nextKey, skipSpace_blank blank₀, skipSpace_blank blank₁, skipSpace_cons space,
      show Text.quotationMark ≠ 0x7d by decide]
  | false =>
    simp [lead, nextKey, skipSpace_blank blank₀, skipSpace_blank blank₁, skipSpace_cons space,
      skipSpace_cons (b := 0x2c) (by decide)]

/-- A key is read in any of its spellings. -/
theorem nextKey_names (first : Bool) {key : String} {b₀ b₁ body : Bytes} (blank₀ : Blank b₀)
    (blank₁ : Blank b₁) (named : Text.Names key body) (rest : Bytes) :
    nextKey first (b₀ ++ (lead first ++ (b₁ ++ Text.quotationMark :: (body ++
      Text.quotationMark :: rest)))) = .ok (some key, rest) := by
  rw [nextKey_quoted first blank₀ blank₁, named.read]
  rfl

end Shape

end ChangeDispatch.Json
