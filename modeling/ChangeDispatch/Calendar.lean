/-!
# The civil calendar

Days are counted from 1970-01-01 in the Gregorian calendar, extended backwards and
forwards without limit. Years are counted here from March to February, so that the leap
day is the last of its year, and grouped into eras of 400 years, which all have the same
number of days.
-/
namespace ChangeDispatch.Calendar

/-- A year, a month from 1 and a day of the month from 1. -/
structure Date where
  year : Int
  month : Nat
  day : Nat
  deriving DecidableEq, Repr

def isLeap (year : Int) : Bool :=
  year % 4 = 0 ∧ (year % 100 ≠ 0 ∨ year % 400 = 0)

def daysInMonth (year : Int) : Nat → Nat
  | 2 => if isLeap year then 29 else 28
  | 4 | 6 | 9 | 11 => 30
  | _ => 31

/-- The date exists in the calendar. -/
def Date.isValid (d : Date) : Bool :=
  1 ≤ d.month ∧ d.month ≤ 12 ∧ 1 ≤ d.day ∧ d.day ≤ daysInMonth d.year d.month

def daysPerEra : Int := 146097

/-- From 1 March of year 0 to 1970-01-01. -/
def daysToEpoch : Int := 719468

/-- Days from 1 March to the first of a month, months counted from March as 0. -/
def daysBeforeMonth (m : Int) : Int := (153 * m + 2) / 5

/-- Days from the start of an era to the start of its year `y`, counted from 0. -/
def daysBeforeYear (y : Int) : Int := 365 * y + y / 4 - y / 100

/-- The number of the day, 1970-01-01 being day 0. -/
def Date.dayNumber (d : Date) : Int :=
  let year := if d.month ≤ 2 then d.year - 1 else d.year
  let month : Int := if d.month ≤ 2 then d.month + 9 else d.month - 3
  year / 400 * daysPerEra + daysBeforeYear (year % 400) + daysBeforeMonth month
    + (d.day - 1) - daysToEpoch

/-- The year of the era that holds the day of the era. -/
def yearOfEra (day : Int) : Int :=
  (day - day / 1460 + day / 36524 - day / 146096) / 365

/-- The date of a day number. -/
def dateOf (dayNumber : Int) : Date :=
  let shifted := dayNumber + daysToEpoch
  let era := shifted / daysPerEra
  let dayOfEra := shifted % daysPerEra
  let yearOfEra := yearOfEra dayOfEra
  let dayOfYear := dayOfEra - daysBeforeYear yearOfEra
  let month := (5 * dayOfYear + 2) / 153
  let day := dayOfYear - daysBeforeMonth month + 1
  let year := era * 400 + yearOfEra
  if month < 10 then ⟨year, (month + 3).toNat, day.toNat⟩
  else ⟨year + 1, (month - 9).toNat, day.toNat⟩

end ChangeDispatch.Calendar
