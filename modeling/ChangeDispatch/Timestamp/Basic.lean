import ChangeDispatch.Calendar

/-!
# Moments of time

A moment counts whole seconds from 1970-01-01T00:00:00 UTC and nanoseconds within the
second. A leap second is the second it follows with a billion or more nanoseconds, so it
keeps its place between that second and the next. Any second may be followed by one, but
only after the last second of a minute there is a way to write it.
-/
namespace ChangeDispatch

namespace Timestamp

/-- The first and the last year that a moment may lie in. -/
def firstYear : Int := -262143
def lastYear : Int := 262142

def secondsPerDay : Int := 86400
def nanosPerSecond : Nat := 1000000000

/-- The first and the last whole second of the representable years. -/
def firstSecond : Int := (Calendar.Date.mk firstYear 1 1).dayNumber * secondsPerDay
def lastSecond : Int := (Calendar.Date.mk lastYear 12 31).dayNumber * secondsPerDay + 86399

/-- The second lies in the representable years. -/
def InYears (second : Int) : Prop := firstSecond ≤ second ∧ second ≤ lastSecond

/-- Less than a second, or less than two with the leap second that follows. -/
def InSecond (nanos : Nat) : Prop := nanos < 2 * nanosPerSecond

instance (second : Int) : Decidable (InYears second) := by unfold InYears; infer_instance
instance (nanos : Nat) : Decidable (InSecond nanos) := by unfold InSecond; infer_instance

end Timestamp

/-- A moment of time in UTC, to the nanosecond. -/
structure Timestamp where
  second : Int
  nanos : Nat
  inYears : Timestamp.InYears second
  inSecond : Timestamp.InSecond nanos
  deriving DecidableEq, Repr

namespace Timestamp

/-- The moment with these parts, if there is one. -/
def ofParts? (second : Int) (nanos : Nat) : Option Timestamp :=
  if h : InYears second ∧ InSecond nanos then some ⟨second, nanos, h.1, h.2⟩ else none

/-- Nanoseconds since the epoch. -/
def toNanos (t : Timestamp) : Int := t.second * nanosPerSecond + t.nanos

/-- The range of a signed 64-bit number. -/
def FitsWord64 (n : Int) : Prop := Int64.minValue.toInt ≤ n ∧ n ≤ Int64.maxValue.toInt

instance (n : Int) : Decidable (FitsWord64 n) := by unfold FitsWord64; infer_instance

/-- Nanoseconds since the epoch, where they fit a signed 64-bit number. -/
def nanos64? (t : Timestamp) : Option Int :=
  if FitsWord64 t.toNanos then some t.toNanos else none

/-- The moment `n` nanoseconds after the epoch. -/
def ofNanos64 (n : Int) (h : FitsWord64 n) : Timestamp where
  second := n / nanosPerSecond
  nanos := (n % nanosPerSecond).toNat
  inYears := by
    obtain ⟨h1, h2⟩ : -9223372036854775808 ≤ n ∧ n ≤ 9223372036854775807 := h
    have hf : firstSecond = -8334601228800 := by decide
    have hl : lastSecond = 8210266876799 := by decide
    simp only [InYears, hf, hl, nanosPerSecond]
    omega
  inSecond := by
    simp only [InSecond, nanosPerSecond]
    omega

/-- The day, counted from 1970-01-01, and the second of the day. -/
def day (t : Timestamp) : Int := t.second / secondsPerDay
def secondOfDay (t : Timestamp) : Nat := (t.second % secondsPerDay).toNat

theorem toNanos_ofNanos64 (n : Int) (h : FitsWord64 n) : (ofNanos64 n h).toNanos = n := by
  simp only [toNanos, ofNanos64, nanosPerSecond]
  omega

end Timestamp

end ChangeDispatch
