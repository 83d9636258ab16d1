import ChangeDispatch.Text.Unshown

/-!
# Quoted text

Messages quote what a caller wrote so that control characters, blanks and marks stay
visible: a short escape where one exists, the code point in hexadecimal for every
other character that would not show, the character itself otherwise. A string is
quoted by `"` and escapes it; a single character is quoted by `'` and escapes that.
-/
namespace ChangeDispatch.Text

/-- Lowercase hexadecimal digits without leading zeros. -/
def hexDigits (n : Nat) : List Char :=
  Nat.toDigits 16 n

/-- The written form of one character between quotation marks `mark`. -/
def quoteChar (mark c : Char) : List Char :=
  if c = '\x00' then ['\\', '0']
  else if c = '\t' then ['\\', 't']
  else if c = '\r' then ['\\', 'r']
  else if c = '\n' then ['\\', 'n']
  else if c = '\\' then ['\\', '\\']
  else if c = mark then ['\\', c]
  else if isUnshown c then ['\\', 'u', '\x7b'] ++ hexDigits c.toNat ++ ['\x7d']
  else [c]

/-- A string between double quotation marks. -/
def quoted (s : String) : String :=
  String.ofList ('"' :: (s.toList.flatMap (quoteChar '"') ++ ['"']))

/-- A single character between single quotation marks. -/
def quotedChar (c : Char) : String :=
  String.ofList ('\'' :: (quoteChar '\'' c ++ ['\'']))

end ChangeDispatch.Text
