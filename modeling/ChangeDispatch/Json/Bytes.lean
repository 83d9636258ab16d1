import ChangeDispatch.Json.Problem

/-!
# Bytes of a document

A document is a list of bytes. Readers take a list and give a value with the bytes that
follow it; only blanks, digits and the punctuation of the grammar are looked at.
-/
namespace ChangeDispatch.Json

abbrev Bytes := List UInt8

/-- A value with the bytes that follow it, or the first problem. -/
abbrev Reader (α : Type) := Bytes → Except Problem (α × Bytes)

/-- The bytes of a string. -/
def utf8 (s : String) : Bytes := s.toByteArray.data.toList

/-- The string of some bytes, unless they are malformed. -/
def ofUtf8? (bs : Bytes) : Option String := String.fromUTF8? ⟨bs.toArray⟩

theorem ofUtf8?_utf8 (s : String) : ofUtf8? (utf8 s) = some s := by
  have h : (⟨(utf8 s).toArray⟩ : ByteArray) = s.toByteArray := by simp [utf8]
  rw [ofUtf8?, h, String.fromUTF8?, dif_pos s.isValidUTF8]
  rfl

theorem utf8_of_ofUtf8? {bs : Bytes} {s : String} (h : ofUtf8? bs = some s) : utf8 s = bs := by
  simp only [ofUtf8?, String.fromUTF8?] at h
  split at h
  · obtain rfl := Option.some.inj h
    simp [utf8, String.fromUTF8]
  · simp at h

/-- The blanks of the grammar: space, line feed, tab and carriage return. -/
def isSpace (b : UInt8) : Bool := b == 0x20 || b == 0x0a || b == 0x09 || b == 0x0d

def skipSpace (bs : Bytes) : Bytes := bs.dropWhile isSpace

def isDigit (b : UInt8) : Bool := 0x30 ≤ b && b ≤ 0x39

def digit (b : UInt8) : Nat := b.toNat - 0x30

/-- The value of a hexadecimal digit in either case. -/
def hexDigit? (b : UInt8) : Option Nat :=
  if 0x30 ≤ b && b ≤ 0x39 then some (b.toNat - 0x30)
  else if 0x61 ≤ b && b ≤ 0x66 then some (b.toNat - 0x61 + 10)
  else if 0x41 ≤ b && b ≤ 0x46 then some (b.toNat - 0x41 + 10)
  else none

/-- The value of four hexadecimal digits. -/
def hex4? (a b c d : UInt8) : Option Nat := do
  return (((← hexDigit? a) * 16 + (← hexDigit? b)) * 16 + (← hexDigit? c)) * 16 + (← hexDigit? d)

/-- The rest of a word such as `null` after its first letter. -/
def expectWord : Bytes → Reader Unit
  | [], bs => .ok ((), bs)
  | _ :: _, [] => .error .endInValue
  | w :: ws, b :: bs => if b = w then expectWord ws bs else .error .expectedIdent

def ull : Bytes := utf8 "ull"
def rue : Bytes := utf8 "rue"
def alse : Bytes := utf8 "alse"

/-- The colon after a key. -/
def colon : Reader Unit := fun bs =>
  match skipSpace bs with
  | [] => .error .endInObject
  | b :: rest => if b = 0x3a then .ok ((), rest) else .error .expectedColon

end ChangeDispatch.Json
