import ChangeDispatch.Proofs.Wire.Text

/-!
# Spellings of a string

The grammar lets the same string be spelled in many ways: a byte may stand for itself or have an
escape of one letter, and a code point may be given by its hexadecimal digits, in two parts if it
is beyond the basic plane. `Spells` lists these ways. The reader resolves all of them alike, and
what the writer makes of a string is one of them.
-/
namespace ChangeDispatch.Json

namespace Text

/-- What may stand between quotation marks for the bytes of a string. -/
inductive Spells : Bytes → Bytes → Prop
  | nil : Spells [] []
  | plain {b : UInt8} {cs bs : Bytes} : b ≠ quotationMark → b ≠ backslash → ¬b < 0x20 →
      Spells cs bs → Spells (b :: cs) (b :: bs)
  | escape {e c : UInt8} {cs bs : Bytes} : escaped? e = some c → Spells cs bs →
      Spells (c :: cs) (backslash :: e :: bs)
  | code {h₁ h₂ h₃ h₄ : UInt8} {n : Nat} {cs bs : Bytes} :
      hex4? h₁ h₂ h₃ h₄ = some n → isTrailing n = false → isLeading n = false → Spells cs bs →
      Spells (codePoint n ++ cs) (backslash :: 0x75 :: h₁ :: h₂ :: h₃ :: h₄ :: bs)
  | pair {h₁ h₂ h₃ h₄ g₁ g₂ g₃ g₄ : UInt8} {n m : Nat} {cs bs : Bytes} :
      hex4? h₁ h₂ h₃ h₄ = some n → isLeading n → hex4? g₁ g₂ g₃ g₄ = some m → isTrailing m →
      Spells cs bs →
      Spells (codePoint (paired n m) ++ cs)
        (backslash :: 0x75 :: h₁ :: h₂ :: h₃ :: h₄ ::
          backslash :: 0x75 :: g₁ :: g₂ :: g₃ :: g₄ :: bs)

theorem content_pair {a b c d e f g h : UInt8} {n m : Nat} (first : hex4? a b c d = some n)
    (leading : isLeading n) (second : hex4? e f g h = some m) (trailing : isTrailing m)
    (rest : Bytes) :
    content (backslash :: 0x75 :: a :: b :: c :: d :: backslash :: 0x75 :: e :: f :: g :: h :: rest)
      = prepend (codePoint (paired n m)) (content rest) := by
  have notTrailing : isTrailing n = false := by
    simp only [isLeading, isTrailing, Bool.and_eq_true, decide_eq_true_eq] at leading ⊢
    simp
    omega
  rw [content.eq_def]
  simp [first, leading, second, trailing, notTrailing, show backslash ≠ quotationMark by decide,
    show escaped? 0x75 = none by decide]

namespace Spells

variable {cs body : Bytes}

/-- The reader resolves every spelling. -/
theorem content (h : Spells cs body) (rest : Bytes) :
    Text.content (body ++ quotationMark :: rest) = .ok (cs, rest) := by
  induction h with
  | nil => exact content_quotationMark rest
  | plain notEnd notEscape shown _ ih =>
    rw [List.cons_append, content_plain notEnd notEscape shown, ih]
    rfl
  | escape escaped _ ih =>
    rw [List.cons_append, List.cons_append, content_escape escaped, ih]
    rfl
  | code value notTrailing notLeading _ ih =>
    simp only [List.cons_append]
    rw [content_hex value notTrailing notLeading, ih]
    rfl
  | pair first leading second trailing _ ih =>
    simp only [List.cons_append]
    rw [content_pair first leading second trailing, ih]
    rfl

/-- What the writer makes of a byte spells it. -/
theorem writeByte (b : UInt8) (h : Spells cs body) :
    Spells (b :: cs) (Text.writeByte b ++ body) := by
  unfold Text.writeByte
  split
  next e short => exact .escape (escaped?_of_shortEscape? short) h
  next none =>
    obtain ⟨notEnd, notEscape⟩ := plain_of_shortEscape? none
    split
    next control =>
      have small : b.toNat < 32 := control
      obtain ⟨value, encoded⟩ := hex4?_of_control small
      have noTrailing : isTrailing b.toNat = false := by simp [isTrailing]; omega
      have noLeading : isLeading b.toNat = false := by simp [isLeading]; omega
      have spelled := Spells.code value noTrailing noLeading h
      rw [encoded] at spelled
      simpa only [Nat.toUInt8_eq, UInt8.ofNat_toNat, List.cons_append, List.nil_append] using
        spelled
    next shown => exact .plain notEnd notEscape shown h

theorem written (bs : Bytes) : Spells bs (bs.flatMap Text.writeByte) := by
  induction bs with
  | nil => exact .nil
  | cons b bs ih => exact .writeByte b ih

end Spells

/-- The bytes stand for the string between quotation marks. -/
def Names (s : String) (body : Bytes) : Prop := Spells (utf8 s) body

theorem Names.read {s : String} {body : Bytes} (h : Names s body) (rest : Bytes) :
    Text.read (body ++ quotationMark :: rest) = .ok (s, rest) := by
  simp only [Text.read, Spells.content h, ofUtf8?_utf8, bind, Except.bind]
  rfl

/-- The bytes stand for one string at most. -/
theorem Names.unique {s t : String} {body : Bytes} (h : Names s body) (h' : Names t body) :
    s = t :=
  congrArg Prod.fst (Except.ok.inj ((h.read []).symm.trans (h'.read [])))

end Text

/-- The text is a string. -/
def IsText (s : String) (text : Bytes) : Prop :=
  ∃ body, Text.Names s body ∧ text = Text.quotationMark :: (body ++ [Text.quotationMark])

theorem IsText.write (s : String) : IsText s (Text.write s) := ⟨_, .written (utf8 s), rfl⟩

end ChangeDispatch.Json
