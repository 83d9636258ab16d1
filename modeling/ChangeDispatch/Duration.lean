import ChangeDispatch.Text.Digits

/-!
# Spans of time

A span is a whole number of nanoseconds. The clock of the library ticks in whole
milliseconds, so a deadline that falls between two ticks is met at the later one:
`Duration.ticks` rounds up, and `ticks_le_iff` says that it is the least such tick.
-/
namespace ChangeDispatch

/-- A span of time in nanoseconds. -/
structure Duration where
  nanos : Nat
  deriving DecidableEq, Repr, Inhabited

namespace Duration

def nanosPerMilli : Nat := 1000000
def nanosPerSecond : Nat := 1000000000

def ofSeconds (n : Nat) : Duration := ⟨n * nanosPerSecond⟩
def ofMillis (n : Nat) : Duration := ⟨n * nanosPerMilli⟩

/-- The whole seconds of the span. -/
def seconds (d : Duration) : Nat := d.nanos / nanosPerSecond

/-- Clock ticks until the span has passed, counted in milliseconds and rounded up. -/
def ticks (d : Duration) : Nat := (d.nanos + (nanosPerMilli - 1)) / nanosPerMilli

def isZero (d : Duration) : Bool := d.nanos == 0

/-- Split the span into `n` equal parts, to the whole nanosecond below. -/
def part (d : Duration) (n : Nat) : Duration := ⟨d.nanos / n⟩

/-- Whole units, then a decimal fraction of `places` digits without trailing zeros. -/
def inUnit (nanos unit places : Nat) (symbol : String) : String :=
  let fraction := Text.padded places (nanos % unit)
  let shown := (fraction.reverse.dropWhile (· == '0')).reverse
  let point := if shown.isEmpty then [] else '.' :: shown
  String.ofList (Nat.toDigits 10 (nanos / unit) ++ point) ++ symbol

/-- The span in its largest unit of which it holds a whole one: `1.5s`, `500ms`, `0ns`. -/
def text (d : Duration) : String :=
  if nanosPerSecond ≤ d.nanos then inUnit d.nanos nanosPerSecond 9 "s"
  else if nanosPerMilli ≤ d.nanos then inUnit d.nanos nanosPerMilli 6 "ms"
  else if 1000 ≤ d.nanos then inUnit d.nanos 1000 3 "µs"
  else inUnit d.nanos 1 0 "ns"

theorem ticks_le_iff (d : Duration) (t : Nat) : d.ticks ≤ t ↔ d.nanos ≤ t * nanosPerMilli := by
  unfold ticks nanosPerMilli
  omega

@[simp] theorem ticks_ofMillis (n : Nat) : (ofMillis n).ticks = n := by
  change (n * 1000000 + (1000000 - 1)) / 1000000 = n
  omega

@[simp] theorem ticks_ofSeconds (n : Nat) : (ofSeconds n).ticks = n * 1000 := by
  change (n * 1000000000 + (1000000 - 1)) / 1000000 = n * 1000
  omega

theorem isZero_eq_false_iff {d : Duration} : d.isZero = false ↔ 0 < d.ticks := by
  have nonzero : d.isZero = false ↔ d.nanos ≠ 0 := by simp [isZero]
  rw [nonzero]
  unfold ticks nanosPerMilli
  omega

end Duration

end ChangeDispatch
