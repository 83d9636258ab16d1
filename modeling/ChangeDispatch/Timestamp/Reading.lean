import ChangeDispatch.Text.Blank
import ChangeDispatch.Text.Digits
import ChangeDispatch.Timestamp.Basic

/-!
# Reading a moment

The relaxed form of a date and time with an offset: a date, one of `T`, `t` or a space,
a time, an offset. Blanks may stand before each number, before each `-` and `:` that
separates numbers, before the offset and at the end. The year has up to four digits, or
any number after a sign; the other numbers have one or two. A second of 60 is a leap
second. The offset is `Z`, `UTC` in any case, or a sign, two digits of hours, any colons
and blanks, and two digits of minutes.
-/
namespace ChangeDispatch.Timestamp

/-- Why a text is no moment. -/
inductive Defect where
  | tooShort
  | invalid
  | outOfRange
  | trailing
  /-- The parts are in range, but the moment in UTC is not. -/
  | impossible
  deriving DecidableEq, Repr

def Defect.message : Defect → String
  | tooShort => "premature end of input"
  | invalid => "input contains invalid characters"
  | outOfRange => "input is out of range"
  | trailing => "trailing input"
  | impossible => "no possible date and time matching input"

/-- A value and the text that follows it. -/
abbrev Scan (α : Type) := List Char → Except Defect (α × List Char)

def isDigit (c : Char) : Bool := '0' ≤ c ∧ c ≤ '9'

/-- The value of a run of digits. -/
def valueOf (ds : List Char) : Nat :=
  ds.foldl (fun n c => 10 * n + (c.toNat - '0'.toNat)) 0

/-- One digit or more, as many as there are. -/
def number : Scan Nat := fun cs =>
  match cs with
  | [] => .error .tooShort
  | _ =>
    let ds := cs.takeWhile isDigit
    if ds.isEmpty then .error .invalid else .ok (valueOf ds, cs.dropWhile isDigit)

/-- One digit or more, at most `width`. -/
def numberWithin (width : Nat) : Scan Nat := fun cs =>
  match cs with
  | [] => .error .tooShort
  | _ =>
    let ds := (cs.take width).takeWhile isDigit
    if ds.isEmpty then .error .invalid else .ok (valueOf ds, cs.drop ds.length)

/-- A character that has to stand next, blanks before it left out. -/
def separator (c : Char) : Scan Unit := fun cs =>
  match Text.trimStart cs with
  | [] => .error .tooShort
  | d :: rest => if d = c then .ok ((), rest) else .error .invalid

/-- A number of one or two digits in a closed range, blanks before it left out. -/
def field (low high : Nat) : Scan Nat := fun cs => do
  let (n, rest) ← numberWithin 2 (Text.trimStart cs)
  if low ≤ n ∧ n ≤ high then return (n, rest) else throw .outOfRange

/-- The range of a signed 32-bit number, the most that is read as a year. -/
def yearWithin (year : Int) (rest : List Char) : Except Defect (Int × List Char) :=
  if Int32.minValue.toInt ≤ year ∧ year ≤ Int32.maxValue.toInt then .ok (year, rest)
  else .error .outOfRange

/-- Up to four digits, or a sign and any number of digits. -/
def year : Scan Int := fun cs =>
  match Text.trimStart cs with
  | '-' :: rest => do
    let (n, rest) ← number rest
    yearWithin (-(n : Int)) rest
  | '+' :: rest => do
    let (n, rest) ← number rest
    yearWithin n rest
  | cs => do
    let (n, rest) ← numberWithin 4 cs
    yearWithin n rest

def date : Scan Calendar.Date := fun cs => do
  let (y, cs) ← year cs
  let ((), cs) ← separator '-' cs
  let (m, cs) ← field 1 12 cs
  let ((), cs) ← separator '-' cs
  let (d, cs) ← field 1 31 cs
  return (⟨y, m, d⟩, cs)

/-- The mark between date and time. -/
def divider : Scan Unit := fun cs =>
  match cs with
  | [] => .error .tooShort
  | c :: rest => if c = 'T' ∨ c = 't' ∨ c = ' ' then .ok ((), rest) else .error .invalid

/-- Billionths of a second after a point, if there is one; digits past the ninth count
for nothing. -/
def fraction : Scan Nat := fun cs =>
  match cs with
  | '.' :: rest => do
    let (n, after) ← numberWithin 9 rest
    return (n * Nat.pow 10 (9 - (rest.length - after.length)), after.dropWhile isDigit)
  | cs => .ok (0, cs)

/-- The second of the day and the nanoseconds in it. -/
def timeOfDay : Scan (Nat × Nat) := fun cs => do
  let (h, cs) ← field 0 23 cs
  let ((), cs) ← separator ':' cs
  let (m, cs) ← field 0 59 cs
  let ((), cs) ← separator ':' cs
  let (s, cs) ← field 0 60 cs
  let (nanos, cs) ← fraction cs
  let leap := s / 60
  return ((h * 3600 + m * 60 + (s - leap), nanos + leap * nanosPerSecond), cs)

/-- Two digits, the first at most `high`; `none` if fewer than two bytes are left. -/
def twoDigits : List Char → Option (Option (Nat × Nat) × List Char)
  | a :: b :: rest =>
    match Text.digitValue? a, Text.digitValue? b with
    | some x, some y => some (some (x, y), rest)
    | _, _ => some (none, rest)
  | [a] => if a.utf8Size < 2 then none else some (none, [])
  | [] => none

/-- Hours and minutes after the sign of an offset, in minutes. -/
def offsetSize : Scan Nat := fun cs => do
  let (hours, cs) ← match twoDigits cs with
    | none => throw .tooShort
    | some (none, _) => throw .invalid
    | some (some (x, y), rest) => pure (10 * x + y, rest)
  match twoDigits (cs.dropWhile fun c => c == ':' || Text.isBlank c) with
  | none => throw .tooShort
  | some (none, _) => throw .invalid
  | some (some (x, y), rest) =>
    if 6 ≤ x then throw .outOfRange
    return (hours * 60 + (10 * x + y), rest)

/-- Minutes to the east of UTC, blanks before them left out. -/
def offset : Scan Int := fun cs =>
  match Text.trimStart cs with
  | [] => .error .tooShort
  | c :: rest =>
    if ((c :: rest).take 3).map Char.toUpper = ['U', 'T', 'C'] then .ok (0, (c :: rest).drop 3)
    else if c = 'Z' ∨ c = 'z' then .ok (0, rest)
    else if c = '+' then (offsetSize rest).map fun (n, rest) => (n, rest)
    else if c = '-' ∨ c = '−' then (offsetSize rest).map fun (n, rest) => (-(n : Int), rest)
    else .error .invalid

/-- The moment of a date and time of day at an offset from UTC. -/
def assemble (d : Calendar.Date) (secondOfDay nanos : Nat) (offset : Int) :
    Except Defect Timestamp :=
  if ¬ (d.isValid ∧ firstYear ≤ d.year ∧ d.year ≤ lastYear) then .error .outOfRange
  else if ¬ (offset.natAbs < 1440) then .error .outOfRange
  else match ofParts? (d.dayNumber * secondsPerDay + secondOfDay - offset * 60) nanos with
    | some t => .ok t
    | none => .error .impossible

def readChars (cs : List Char) : Except Defect Timestamp := do
  let (d, cs) ← date cs
  let ((), cs) ← divider cs
  let ((secondOfDay, nanos), cs) ← timeOfDay cs
  let (east, cs) ← offset cs
  if ¬ (Text.trimStart cs).isEmpty then throw .trailing
  assemble d secondOfDay nanos east

/-- The moment that a text gives. -/
def read (s : String) : Except Defect Timestamp := readChars s.toList

end ChangeDispatch.Timestamp
