import ChangeDispatch.Json.Bytes

/-!
# Numbers of a document

A number is a 64-bit integer where it can be one: unsigned without a sign, signed below
zero. All others, `-0` among them, are floating point. Their value is formed from the
first digits that fit 64 bits and a power of ten, with one rounding for each of the two;
it shows only in messages.
-/
namespace ChangeDispatch.Json

/-- A number as it was read. -/
inductive Number where
  | natural (value : Nat)
  /-- The integer `-value`, below zero. -/
  | negative (value : Nat)
  | float (value : Float)

def Number.unexpected : Number → Unexpected
  | natural value => .integer value
  | negative value => .integer (-value)
  | float value => .fraction (Decimal.writtenFloat value)

namespace Number

def limit : Nat := UInt64.size

/-- Powers of ten up to this one are floating-point numbers. -/
def maxPower : Nat := 308

def power (n : Nat) : Float := Float.ofScientific 1 false n

/-- Divide by `10 ^ size`, by the greatest power first. -/
def divided (f : Float) : Nat → Nat → Float
  | 0, _ => f
  | steps + 1, size =>
    if size ≤ maxPower then f / power size
    else if f == 0.0 then f
    else divided (f / power maxPower) steps (size - maxPower)

/-- The floating-point number `significand * 10 ^ exponent`. -/
def ofParts (positive : Bool) (significand : Nat) (exponent : Int) : Except Problem Float := do
  let f := significand.toUInt64.toFloat
  let size := exponent.natAbs
  let f ←
    if 0 ≤ exponent then
      if size ≤ maxPower then
        if (f * power size).isInf then throw .numberOutOfRange else pure (f * power size)
      else if f == 0.0 then pure f
      else throw .numberOutOfRange
    else pure (divided f 4 size)
  return if positive then f else -f

/-- Read digits into `value` as long as it stays below the limit. Gives the value, how
many digits it took, and the bytes from the first digit that it did not take. -/
def significant (value : Nat) : Bytes → Nat × Nat × Bytes
  | [] => (value, 0, [])
  | b :: bs =>
    if isDigit b ∧ 10 * value + digit b < limit then
      let (v, n, rest) := significant (10 * value + digit b) bs
      (v, n + 1, rest)
    else (value, 0, b :: bs)

/-- The largest exponent that is told apart: beyond it a number is zero or too large. -/
def maxExponent : Nat := UInt32.size / 2 - 1

/-- The digits of an exponent, up to the first that leaves the range. -/
def exponentDigits (value : Nat) : Bytes → Option Nat × Bytes
  | [] => (some value, [])
  | b :: bs =>
    if isDigit b then
      if maxExponent < 10 * value + digit b then (none, bs)
      else exponentDigits (10 * value + digit b) bs
    else (some value, b :: bs)

/-- The exponent after its `e`. -/
def exponentPart (positive : Bool) (significand : Nat) (exponent : Int) : Reader Number :=
  fun bs => do
  let (up, bs) := match bs with
    | b :: rest => if b = 0x2b then (true, rest) else if b = 0x2d then (false, rest) else (true, bs)
    | [] => (true, [])
  match bs with
  | [] => throw .endInValue
  | b :: rest =>
    if ¬ isDigit b then throw .invalidNumber
    match exponentDigits (digit b) rest with
    | (some e, rest) =>
      let f ← ofParts positive significand (if up then exponent + e else exponent - e)
      return (.float f, rest)
    | (none, rest) =>
      if significand ≠ 0 ∧ up then throw .numberOutOfRange
      return (.float (if positive then 0.0 else -0.0), rest.dropWhile isDigit)

/-- An exponent, if one follows. -/
def withExponent (positive : Bool) (significand : Nat) (exponent : Int) : Reader Number :=
  fun bs =>
  match bs with
  | b :: rest =>
    if b = 0x65 ∨ b = 0x45 then exponentPart positive significand exponent rest
    else (ofParts positive significand exponent).map fun f => (.float f, b :: rest)
  | [] => (ofParts positive significand exponent).map fun f => (.float f, [])

/-- The fraction after its point; digits that no longer fit count for nothing. -/
def fractionPart (positive : Bool) (significand : Nat) (exponent : Int) : Reader Number :=
  fun bs =>
  match bs with
  | [] => .error .endInValue
  | b :: _ =>
    if ¬ isDigit b then .error .invalidNumber
    else
      let (value, taken, rest) := significant significand bs
      withExponent positive value (exponent - taken) (rest.dropWhile isDigit)

/-- What follows the integral digits. -/
def afterIntegral (positive : Bool) (significand : Nat) : Reader Number := fun bs =>
  match bs with
  | b :: rest =>
    if b = 0x2e then fractionPart positive significand 0 rest
    else if b = 0x65 ∨ b = 0x45 then exponentPart positive significand 0 rest
    else .ok (integral, bs)
  | [] => .ok (integral, [])
where
  integral : Number :=
    if positive then .natural significand
    else if significand = 0 ∨ limit / 2 < significand then .float (-significand.toUInt64.toFloat)
    else .negative significand

/-- The digits of an integer too long for 64 bits only scale what was read before them. -/
def longIntegral (positive : Bool) (significand : Nat) (bs : Bytes) :
    Except Problem (Number × Bytes) :=
  let more := bs.takeWhile isDigit
  match bs.dropWhile isDigit with
  | b :: rest =>
    if b = 0x2e then fractionPart positive significand more.length rest
    else withExponent positive significand more.length (b :: rest)
  | [] => withExponent positive significand more.length []

/-- A number after its sign. -/
def unsigned (positive : Bool) : Reader Number := fun bs =>
  match bs with
  | [] => .error .endInValue
  | b :: rest =>
    if b = 0x30 then
      match rest with
      | c :: _ => if isDigit c then .error .invalidNumber else afterIntegral positive 0 rest
      | [] => afterIntegral positive 0 rest
    else if isDigit b then
      let (value, _, after) := significant 0 bs
      match after with
      | c :: _ => if isDigit c then longIntegral positive value after
                  else afterIntegral positive value after
      | [] => afterIntegral positive value after
    else .error .invalidNumber

/-- A number with an optional minus sign. -/
def read : Reader Number := fun bs =>
  match bs with
  | b :: rest => if b = 0x2d then unsigned false rest else unsigned true bs
  | [] => unsigned true []

/-- Digits of which there has to be at least one. -/
def skipDigits : Reader Unit := fun bs =>
  match bs with
  | b :: rest => if isDigit b then .ok ((), rest.dropWhile isDigit) else .error .invalidNumber
  | [] => .error .invalidNumber

/-- Pass over an exponent, if one follows. -/
def skipExponent : Reader Unit := fun bs =>
  match bs with
  | b :: rest =>
    if b = 0x65 ∨ b = 0x45 then
      match rest with
      | c :: after => if c = 0x2b ∨ c = 0x2d then skipDigits after else skipDigits rest
      | [] => .error .invalidNumber
    else .ok ((), bs)
  | [] => .ok ((), [])

/-- Pass over a fraction, if one follows, and an exponent. -/
def skipFraction : Reader Unit := fun bs =>
  match bs with
  | b :: rest =>
    if b = 0x2e then do
      let ((), after) ← skipDigits rest
      skipExponent after
    else skipExponent bs
  | [] => .ok ((), [])

/-- Pass over a number after its sign, of any size. -/
def skip : Reader Unit := fun bs =>
  match bs with
  | b :: rest =>
    if b = 0x30 then
      match rest with
      | c :: _ => if isDigit c then .error .invalidNumber else skipFraction rest
      | [] => skipFraction rest
    else if isDigit b then skipFraction (rest.dropWhile isDigit)
    else .error .invalidNumber
  | [] => .error .invalidNumber

end Number

end ChangeDispatch.Json
