import ChangeDispatch.Text.Digits
import ChangeDispatch.Timestamp.Basic

/-!
# The written form of a moment

Date, `T`, time of day, fraction and `Z`: `2026-01-19T12:00:00.500Z`. The fraction has
0, 3, 6 or 9 digits, the fewest that are exact. Years from 0 to 9999 have four digits,
all others a sign and at least four. A leap second counts as one more second of its
minute: at the end of a minute it is second 60, anywhere else it looks like the second
after it.
-/
namespace ChangeDispatch.Timestamp

open Text (padded)

/-- Four digits, with a sign outside the years 0 to 9999. -/
def writtenYear (year : Int) : List Char :=
  if 0 ≤ year ∧ year ≤ 9999 then padded 4 year.toNat
  else if year < 0 then '-' :: padded 4 year.natAbs
  else '+' :: padded 4 year.natAbs

/-- The fewest of 0, 3, 6 and 9 digits that are exact for `nanos` billionths. -/
def writtenFraction (nanos : Nat) : List Char :=
  if nanos = 0 then []
  else if nanos % 1000000 = 0 then '.' :: padded 3 (nanos / 1000000)
  else if nanos % 1000 = 0 then '.' :: padded 6 (nanos / 1000)
  else '.' :: padded 9 nanos

def writtenDate (d : Calendar.Date) : List Char :=
  writtenYear d.year ++ '-' :: (padded 2 d.month ++ '-' :: padded 2 d.day)

/-- The time of day; a billion nanoseconds or more count as one more second. -/
def writtenTime (secondOfDay nanos : Nat) : List Char :=
  let leap := nanos / nanosPerSecond
  padded 2 (secondOfDay / 3600) ++ ':' :: (padded 2 (secondOfDay / 60 % 60) ++
    ':' :: (padded 2 (secondOfDay % 60 + leap) ++ writtenFraction (nanos % nanosPerSecond)))

def writtenChars (t : Timestamp) : List Char :=
  writtenDate (Calendar.dateOf t.day) ++ 'T' :: (writtenTime t.secondOfDay t.nanos ++ ['Z'])

/-- The moment in UTC. -/
def written (t : Timestamp) : String := String.ofList t.writtenChars

end ChangeDispatch.Timestamp
