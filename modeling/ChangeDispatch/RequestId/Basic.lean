/-!
# Request identifiers

An identifier is a 128-bit number. It is written as 32 lowercase hexadecimal digits in
groups of 8, 4, 4, 4 and 12 joined by hyphens.
-/
namespace ChangeDispatch

/-- The identifier of one request. -/
structure RequestId where
  value : Fin (Nat.pow 2 128)
  deriving DecidableEq, Repr

namespace RequestId

/-- The identifier with the lowest 128 bits of `n`. -/
def ofNat (n : Nat) : RequestId := ⟨Fin.ofNat _ n⟩

/-- How many hexadecimal digits each group has. -/
def groupSizes : List Nat := [8, 4, 4, 4, 12]

/-- The lowercase hexadecimal digit of a number below 16. -/
def hexDigit (n : Nat) : Char := Nat.digitChar (n % 16)

/-- The lowest `count` hexadecimal digits of `n`, the most significant first. -/
def hexDigits : Nat → Nat → List Char
  | 0, _ => []
  | count + 1, n => hexDigits count (n / 16) ++ [hexDigit n]

/-- Cut `cs` into groups of the given sizes and join them by hyphens. -/
def grouped : List Nat → List Char → List Char
  | [], _ => []
  | [size], cs => cs.take size
  | size :: sizes, cs => cs.take size ++ '-' :: grouped sizes (cs.drop size)

/-- The 32 digits without hyphens. -/
def digits (id : RequestId) : List Char := hexDigits 32 id.value.val

def writtenChars (id : RequestId) : List Char := grouped groupSizes id.digits

def written (id : RequestId) : String := String.ofList id.writtenChars

/-- The four bits that tell how an identifier was made. -/
def version (id : RequestId) : Nat := id.value.val / Nat.pow 2 76 % 16

end RequestId

end ChangeDispatch
