import Mathlib.Tactic.SplitIfs
import Mathlib.Tactic.Tauto
import ChangeDispatch.Json.Record

/-!
# What stands between quotation marks, byte by byte

The writer escapes byte by byte, the reader resolves escapes byte by byte, and the two meet
at `content`. Whether the bytes are well-formed Unicode plays no part before the closing
quotation mark: the bytes of a string always are.
-/
namespace ChangeDispatch.Json

theorem isSpace_iff {b : UInt8} : isSpace b ↔ b = 0x20 ∨ b = 0x0a ∨ b = 0x09 ∨ b = 0x0d := by
  simp [isSpace, or_assoc]

@[simp] theorem skipSpace_cons {b : UInt8} (h : isSpace b = false) (bs : Bytes) :
    skipSpace (b :: bs) = b :: bs := by
  simp [skipSpace, h]

namespace Text

/-! ### How `content` goes on, by its next bytes -/

@[simp] theorem content_quotationMark (rest : Bytes) :
    content (quotationMark :: rest) = .ok ([], rest) := by
  rw [content.eq_def]
  simp

theorem content_escape {e c : UInt8} (h : escaped? e = some c) (rest : Bytes) :
    content (backslash :: e :: rest) = prepend [c] (content rest) := by
  rw [content.eq_def]
  simp [h, show backslash ≠ quotationMark by decide]

theorem content_hex {a b c d : UInt8} {n : Nat} (h : hex4? a b c d = some n)
    (noTrailing : isTrailing n = false) (noLeading : isLeading n = false) (rest : Bytes) :
    content (backslash :: 0x75 :: a :: b :: c :: d :: rest)
      = prepend (codePoint n) (content rest) := by
  rw [content.eq_def]
  simp [h, noTrailing, noLeading, show backslash ≠ quotationMark by decide,
    show escaped? 0x75 = none by decide]

theorem content_plain {b : UInt8} (notEnd : b ≠ quotationMark) (notEscape : b ≠ backslash)
    (shown : ¬ b < 0x20) (rest : Bytes) :
    content (b :: rest) = prepend [b] (content rest) := by
  rw [content.eq_def]
  simp only [if_neg notEnd, if_neg notEscape, if_neg shown]

/-! ### One written byte -/

/-- A one-letter escape stands for the byte that it is written for. -/
theorem escaped?_of_shortEscape? {b e : UInt8} (h : shortEscape? b = some e) :
    escaped? e = some b := by
  simp only [shortEscape?] at h
  split_ifs at h with quoted <;> obtain rfl := Option.some.inj h
  · exact if_pos (by tauto)
  all_goals subst b; decide

/-- A byte without an escape of its own neither ends the string nor starts an escape. -/
theorem plain_of_shortEscape? {b : UInt8} (h : shortEscape? b = none) :
    b ≠ quotationMark ∧ b ≠ backslash := by
  constructor <;> rintro rfl <;> simp [shortEscape?, quotationMark, backslash] at h

/-- The four digits of a control byte name the byte, which is its own encoding. -/
theorem hex4?_of_control {n : Nat} (h : n < 32) :
    hex4? 0x30 0x30 (hexDigit (n / 16)) (hexDigit (n % 16)) = some n ∧
      codePoint n = [n.toUInt8] := by
  decide +revert

end Text

end ChangeDispatch.Json
