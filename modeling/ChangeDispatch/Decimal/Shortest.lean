/-!
# The shortest decimal that reads back

A binary fraction stands for every real number that rounds to it. Among the decimals in
that interval the ones with the fewest digits are taken, and of those the nearest; a tie
goes to the even digit. All comparisons are between natural numbers, so nothing is
rounded on the way.
-/
namespace ChangeDispatch.Decimal

/-- The number `coefficient * base ^ exponent`. -/
structure Scaled (base : Nat) where
  coefficient : Nat
  exponent : Int

/-- Compare a binary and a decimal fraction by clearing the denominators. -/
def compareScaled (a : Scaled 2) (b : Scaled 10) : Ordering :=
  compare (a.coefficient * Nat.pow 2 a.exponent.toNat * Nat.pow 10 (-b.exponent).toNat)
    (b.coefficient * Nat.pow 10 b.exponent.toNat * Nat.pow 2 (-a.exponent).toNat)

/-- A positive binary fraction with the ends of the interval that rounds to it, all three
to the same exponent. The ends belong to the interval if `closed`. -/
structure Rounding where
  low : Nat
  value : Nat
  high : Nat
  exponent : Int
  closed : Bool

namespace Rounding

/-- The decimal lies in the interval. -/
def admits (r : Rounding) (d : Scaled 10) : Bool :=
  match compareScaled ⟨r.low, r.exponent⟩ d, compareScaled ⟨r.high, r.exponent⟩ d with
  | .lt, .gt => true
  | .eq, _ | _, .eq => r.closed
  | _, _ => false

/-- The greatest multiple of `10 ^ exponent` that is no more than the value. -/
def floorAt (r : Rounding) (exponent : Int) : Nat :=
  (r.value * Nat.pow 2 r.exponent.toNat * Nat.pow 10 (-exponent).toNat)
    / (Nat.pow 10 exponent.toNat * Nat.pow 2 (-r.exponent).toNat)

/-- The nearer of the two neighbours of the value on a grid that lie in the interval. -/
def onGrid? (r : Rounding) (exponent : Int) : Option (Scaled 10) :=
  let below := r.floorAt exponent
  let lower : Scaled 10 := ⟨below, exponent⟩
  let upper : Scaled 10 := ⟨below + 1, exponent⟩
  match 0 < below && r.admits lower, r.admits upper with
  | true, true =>
    match compareScaled ⟨2 * r.value, r.exponent⟩ ⟨2 * below + 1, exponent⟩ with
    | .lt => some lower
    | .gt => some upper
    | .eq => if below % 2 = 0 then some lower else some upper
  | true, false => some lower
  | false, true => some upper
  | false, false => none

/-- Try the grids from `exponent` downwards, ten times finer each time. -/
def search (r : Rounding) : Nat → Int → Option (Scaled 10)
  | 0, _ => none
  | tries + 1, exponent => (r.onGrid? exponent).or (search r tries (exponent - 1))

end Rounding

/-- The interval of a positive finite floating-point number. -/
def roundingOf (bits : UInt64) : Rounding :=
  let fraction : Nat := bits.toNat % Nat.pow 2 52
  let field : Nat := bits.toNat / Nat.pow 2 52 % Nat.pow 2 11
  let mantissa := if field = 0 then fraction else fraction + Nat.pow 2 52
  let exponent : Int := if field = 0 then -1074 else (field : Int) - 1075
  let step := if fraction = 0 ∧ 1 < field then 1 else 2
  { low := 4 * mantissa - step, value := 4 * mantissa, high := 4 * mantissa + 2,
    exponent := exponent - 2, closed := mantissa % 2 == 0 }

/-- The shortest decimal of a positive finite floating-point number. -/
def shortest (x : Float) : Scaled 10 :=
  ((roundingOf x.toBits).search 700 309).getD ⟨0, 0⟩

/-- Drop the trailing zeros of a coefficient. -/
def Scaled.stripped (d : Scaled 10) : Nat → Scaled 10
  | 0 => d
  | fuel + 1 =>
    if d.coefficient ≠ 0 ∧ d.coefficient % 10 = 0 then
      Scaled.stripped ⟨d.coefficient / 10, d.exponent + 1⟩ fuel
    else d

/-- Positional from `0.00001` up to below `10 ^ 16`, always with a point; scientific
without a plus sign beyond. -/
def written (d : Scaled 10) : String :=
  let ds := Nat.toDigits 10 d.coefficient
  let point : Int := ds.length + d.exponent
  let zeros (n : Int) : List Char := List.replicate n.toNat '0'
  let chars :=
    if 0 ≤ d.exponent ∧ point ≤ 16 then ds ++ zeros d.exponent ++ ['.', '0']
    else if 0 < point ∧ point ≤ 16 then ds.take point.toNat ++ '.' :: ds.drop point.toNat
    else if -5 < point ∧ point ≤ 0 then '0' :: '.' :: (zeros (-point) ++ ds)
    else
      let mantissa := match ds with
        | [d] => [d]
        | d :: rest => d :: '.' :: rest
        | [] => []
      mantissa ++ 'e' :: (toString (point - 1)).toList
  String.ofList chars

/-- The text of a finite floating-point number. -/
def writtenFloat (x : Float) : String :=
  let sign := if x.toBits.toNat / Nat.pow 2 63 = 0 then "" else "-"
  let size := x.abs
  sign ++ if size == 0 then "0.0" else written ((shortest size).stripped 400)

end ChangeDispatch.Decimal
