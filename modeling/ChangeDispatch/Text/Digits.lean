/-!
# Decimal digits

Reading and writing of unsigned decimal numbers.
-/
namespace ChangeDispatch.Text

/-- The value of an ASCII decimal digit. -/
def digitValue? (c : Char) : Option Nat :=
  if '0' ≤ c ∧ c ≤ '9' then some (c.toNat - '0'.toNat) else none

/-- Read all of `cs` as digits, most significant first, after the digits read so far. -/
def digitsFrom (value : Nat) : List Char → Option Nat
  | [] => some value
  | c :: cs => (digitValue? c).bind fun d => digitsFrom (10 * value + d) cs

/-- One or more decimal digits. -/
def digits? (cs : List Char) : Option Nat :=
  if cs.isEmpty then none else digitsFrom 0 cs

/-- An unsigned decimal number with an optional leading `+`, no larger than `limit`. -/
def unsigned? (limit : Nat) (cs : List Char) : Option Nat :=
  let ds := match cs with
    | '+' :: rest => rest
    | _ => cs
  (digits? ds).filter (· ≤ limit)

/-- The number in decimal, padded with zeros on the left to `width` digits. -/
def padded (width n : Nat) : List Char :=
  let ds := Nat.toDigits 10 n
  List.replicate (width - ds.length) '0' ++ ds

/-- The largest 32-bit unsigned number. -/
def maxWord32 : Nat := UInt32.size - 1

/-- The largest 64-bit unsigned number. -/
def maxWord64 : Nat := UInt64.size - 1

end ChangeDispatch.Text
