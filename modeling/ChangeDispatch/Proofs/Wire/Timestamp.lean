import ChangeDispatch.Proofs.Wire.Calendar
import ChangeDispatch.Proofs.Wire.Number
import ChangeDispatch.Timestamp.Reading
import ChangeDispatch.Timestamp.Written
import Mathlib.Algebra.Ring.Nat

/-!
# A written moment is read back

The reader is more lenient than the writer: it takes blanks, short numbers and offsets that
are never written. Each part of the written form is followed by a character that is no
digit, so every number ends where it was meant to, and the date and the second of the day
are those of the moment. Years of more than four digits are included, and so are leap seconds at
the end of a minute; any other leap second is written as the second after it and read as that.
-/
namespace ChangeDispatch.Timestamp

open Calendar (Date dateOf EraDay exists_dateOf)
open Text (padded trimStart)

/-! ### Numbers -/

theorem isDigit_of_isDigit {c : Char} (h : c.isDigit = true) : isDigit c = true := by
  simp only [Char.isDigit, Bool.and_eq_true, decide_eq_true_eq] at h
  exact decide_eq_true h

theorem isBlank_of_isDigit {c : Char} (h : c.isDigit = true) : Text.isBlank c = false := by
  have bounds := Json.toNat_of_isDigit h
  simp [Text.isBlank, Text.blankRanges]
  omega

/-- Digits that are not empty, and all of them. -/
structure Digits (ds : List Char) : Prop where
  all : ∀ c ∈ ds, c.isDigit = true
  some : ds ≠ []

theorem Digits.padded (width n : Nat) : Digits (padded width n) where
  all c h := by
    rcases List.mem_append.mp h with zero | digit
    · rw [List.eq_of_mem_replicate zero]
      rfl
    · exact Json.isDigit_digitsOf n c digit
  some := by simp [Text.padded, Nat.toDigits_ne_nil]

theorem Digits.append_ne {ds rest : List Char} (h : Digits ds) {c : Char}
    (other : c.isDigit = false) (cs : List Char) : ds ++ rest ≠ c :: cs := by
  intro eq
  cases ds with
  | nil => exact h.some rfl
  | cons d ds =>
    obtain rfl : d = c := (List.cons.inj eq).1
    exact Bool.false_ne_true (other.symm.trans (h.all d List.mem_cons_self))

/-- Leading zeros add nothing to a number. -/
theorem valueOf_padded (width n : Nat) : valueOf (padded width n) = n := by
  have fold : ∀ ds, valueOf ds = Nat.ofDigitChars 10 ds 0 :=
    fun ds => Nat.ofDigitChars_eq_foldl.symm
  rw [fold, padded, Nat.ofDigitChars_append, Nat.ofDigitChars_replicate_zero, Nat.mul_zero]
  exact Nat.ofDigitChars_ten_toDigits

theorem length_padded {width n : Nat} (positive : 0 < width) (h : n < 10 ^ width) :
    (padded width n).length = width := by
  have short := (Nat.length_toDigits_le_iff (by decide) positive).mpr h
  simp [padded]
  omega

/-- What follows starts with no digit. -/
def NoDigit : List Char → Prop
  | [] => True
  | c :: _ => isDigit c = false

section Numbers

variable {ds rest : List Char}

theorem takeWhile_digits (h : Digits ds) (ends : NoDigit rest) :
    (ds ++ rest).takeWhile isDigit = ds := by
  rw [List.takeWhile_append_of_pos fun c mem => isDigit_of_isDigit (h.all c mem)]
  cases rest with
  | nil => simp
  | cons c rest => rw [List.takeWhile_cons_of_neg (by simpa [NoDigit] using ends), List.append_nil]

theorem dropWhile_digits (h : Digits ds) (ends : NoDigit rest) :
    (ds ++ rest).dropWhile isDigit = rest := by
  rw [List.dropWhile_append_of_pos fun c mem => isDigit_of_isDigit (h.all c mem)]
  cases rest with
  | nil => rfl
  | cons c rest => exact List.dropWhile_cons_of_neg (by simpa [NoDigit] using ends)

theorem number_digits (h : Digits ds) (ends : NoDigit rest) :
    number (ds ++ rest) = .ok (valueOf ds, rest) := by
  rw [number, takeWhile_digits h ends, dropWhile_digits h ends]
  · simp [h.some]
  · simp [h.some]

theorem noDigit_take (ends : NoDigit rest) (n : Nat) : NoDigit (rest.take n) := by
  cases rest with
  | nil => simp [NoDigit]
  | cons c rest => cases n <;> simp_all [NoDigit]

theorem numberWithin_digits {width : Nat} (h : Digits ds) (fits : ds.length ≤ width)
    (ends : NoDigit rest) : numberWithin width (ds ++ rest) = .ok (valueOf ds, rest) := by
  have taken : ((ds ++ rest).take width).takeWhile isDigit = ds := by
    rw [List.take_append, List.take_of_length_le fits]
    exact takeWhile_digits h (noDigit_take ends _)
  rw [numberWithin, taken]
  · simp [h.some]
  · simp [h.some]

theorem trimStart_digits (h : Digits ds) : trimStart (ds ++ rest) = ds ++ rest := by
  cases ds with
  | nil => exact absurd rfl h.some
  | cons c ds =>
    exact Text.trimStart_cons_of_not_isBlank (isBlank_of_isDigit (h.all c List.mem_cons_self))

end Numbers

theorem separator_eq {c : Char} (h : Text.isBlank c = false) (rest : List Char) :
    separator c (c :: rest) = .ok ((), rest) := by
  rw [separator, Text.trimStart_cons_of_not_isBlank h]
  simp

/-- A number of two digits in its range. -/
theorem field_padded (low high n : Nat) (rest : List Char) (h : low ≤ n ∧ n ≤ high)
    (small : n < 100) (ends : NoDigit rest) :
    field low high (padded 2 n ++ rest) = .ok (n, rest) := by
  have digits := Digits.padded 2 n
  rw [field, trimStart_digits digits,
    numberWithin_digits digits (Nat.le_of_eq (length_padded (by decide) small)) ends]
  simp [bind, Except.bind, pure, Except.pure, valueOf_padded, h]

/-! ### Date and time -/

/-- A year that moments may lie in is read back with its sign. -/
theorem year_written {y : Int} (rest : List Char) (h : firstYear ≤ y ∧ y ≤ lastYear)
    (ends : NoDigit rest) : year (writtenYear y ++ rest) = .ok (y, rest) := by
  have within : ∀ rest, yearWithin y rest = .ok (y, rest) := by
    intro rest
    have bounds : Int32.minValue.toInt = -2147483648 ∧ Int32.maxValue.toInt = 2147483647 := by
      decide
    simp only [firstYear, lastYear] at h
    exact if_pos (by omega)
  have digits := Digits.padded 4
  simp only [writtenYear]
  split
  · next short =>
    have four : y.toNat < 10 ^ 4 := by omega
    have read := numberWithin_digits (digits y.toNat)
      (Nat.le_of_eq (length_padded (by decide) four)) ends
    have value : (y.toNat : Int) = y := Int.toNat_of_nonneg short.1
    rw [year, trimStart_digits (digits _)]
    split
    · next sign => exact absurd sign ((digits _).append_ne (by decide) _)
    · next sign => exact absurd sign ((digits _).append_ne (by decide) _)
    · simp [read, valueOf_padded, value, within, bind, Except.bind]
  · next long =>
    have read := number_digits (digits y.natAbs) ends
    split
    · next negative =>
      have value : -(y.natAbs : Int) = y := by omega
      rw [List.cons_append, year, Text.trimStart_cons_of_not_isBlank (by decide)]
      simp only [read, valueOf_padded, value, within, bind, Except.bind]
    · next positive =>
      have value : (y.natAbs : Int) = y := by omega
      rw [List.cons_append, year, Text.trimStart_cons_of_not_isBlank (by decide)]
      simp [read, valueOf_padded, value, within, bind, Except.bind]

/-- A date that exists, in a year that moments may lie in. -/
theorem date_written {d : Date} (rest : List Char) (valid : d.isValid = true)
    (years : firstYear ≤ d.year ∧ d.year ≤ lastYear) (ends : NoDigit rest) :
    date (writtenDate d ++ rest) = .ok (d, rest) := by
  obtain ⟨month1, month12, day1, dayLast⟩ := of_decide_eq_true valid
  have day31 : d.day ≤ 31 := by
    have : Calendar.daysInMonth d.year d.month ≤ 31 := by
      unfold Calendar.daysInMonth
      split <;> (try split) <;> decide
    omega
  have month := field_padded 1 12 d.month ('-' :: (padded 2 d.day ++ rest)) ⟨month1, month12⟩
    (by omega) rfl
  have day := field_padded 1 31 d.day rest ⟨day1, day31⟩ (by omega) ends
  have year := year_written ('-' :: (padded 2 d.month ++ '-' :: (padded 2 d.day ++ rest)))
    years rfl
  have hyphen := separator_eq (c := '-') (by decide)
  simp [writtenDate, date, year, hyphen, month, day, bind, Except.bind, pure, Except.pure]

theorem fraction_digits {width n : Nat} {rest : List Char} (positive : 0 < width)
    (atMost : width ≤ 9) (h : n < 10 ^ width) (ends : NoDigit rest) :
    fraction ('.' :: (padded width n ++ rest)) = .ok (n * 10 ^ (9 - width), rest) := by
  have size := length_padded positive h
  have fits : (padded width n).length ≤ 9 := Nat.le_trans (Nat.le_of_eq size) atMost
  have read := numberWithin_digits (Digits.padded width n) fits ends
  have after : rest.dropWhile isDigit = rest := by
    cases rest with
    | nil => rfl
    | cons c rest => exact List.dropWhile_cons_of_neg (by simpa [NoDigit] using ends)
  simp [fraction, read, valueOf_padded, after, size, bind, Except.bind, pure, Except.pure]

/-- The fraction of less than a second is read back to the nanosecond. -/
theorem fraction_written {nanos : Nat} {rest : List Char} (h : nanos < nanosPerSecond)
    (ends : NoDigit rest) (noPoint : rest.head? ≠ some '.') :
    fraction (writtenFraction nanos ++ rest) = .ok (nanos, rest) := by
  simp only [nanosPerSecond] at h
  simp only [writtenFraction]
  split
  · next none =>
    rw [none, List.nil_append, fraction.eq_def]
    split
    · next point => simp at noPoint
    · rfl
  · split
    · next millis =>
      have value : nanos / 1000000 * 10 ^ (9 - 3) = nanos := by omega
      rw [List.cons_append, fraction_digits (by decide) (by decide) (by omega) ends, value]
    · split
      · next micros =>
        have value : nanos / 1000 * 10 ^ (9 - 6) = nanos := by omega
        rw [List.cons_append, fraction_digits (by decide) (by decide) (by omega) ends, value]
      · rw [List.cons_append, fraction_digits (by decide) (by decide) h ends]
        simp

/-- The second of the day and the nanoseconds are read back, in a leap second too. -/
theorem timeOfDay_written {second nanos : Nat} (rest : List Char) (h : second < 86400)
    (inSecond : nanos < nanosPerSecond ∨ nanos < 2 * nanosPerSecond ∧ second % 60 = 59)
    (ends : NoDigit rest) (noPoint : rest.head? ≠ some '.') :
    timeOfDay (writtenTime second nanos ++ rest) = .ok ((second, nanos), rest) := by
  have leap : nanos / nanosPerSecond = (second % 60 + nanos / nanosPerSecond) / 60 := by
    simp only [nanosPerSecond] at inSecond ⊢
    omega
  have seconds : second % 60 + nanos / nanosPerSecond ≤ 60 := by
    simp only [nanosPerSecond] at inSecond ⊢
    omega
  have endsFraction : NoDigit (writtenFraction (nanos % nanosPerSecond) ++ rest) := by
    simp only [writtenFraction]
    split
    · exact ends
    · split
      · rfl
      · split <;> rfl
  have fraction := fraction_written (Nat.mod_lt nanos (by decide)) ends noPoint
  have seconds := field_padded 0 60 _ _ ⟨Nat.zero_le _, seconds⟩ (by omega) endsFraction
  generalize rest' : writtenFraction (nanos % nanosPerSecond) ++ rest = cs at *
  have minute := field_padded 0 59 (second / 60 % 60)
    (':' :: (padded 2 (second % 60 + nanos / nanosPerSecond) ++ cs)) (by omega) (by omega) rfl
  have hour := field_padded 0 23 (second / 3600)
    (':' :: (padded 2 (second / 60 % 60) ++
      ':' :: (padded 2 (second % 60 + nanos / nanosPerSecond) ++ cs))) (by omega) (by omega) rfl
  have colon := separator_eq (c := ':') (by decide)
  have day : second / 3600 * 3600 + second / 60 % 60 * 60 + second % 60 = second := by omega
  have whole : nanos % nanosPerSecond + nanos / nanosPerSecond * nanosPerSecond = nanos := by
    rw [Nat.mul_comm]
    exact Nat.mod_add_div ..
  simp only [writtenTime, timeOfDay, List.append_assoc, List.cons_append, rest', hour, colon,
    minute, seconds, fraction, bind, Except.bind, pure, Except.pure, ← leap, Nat.add_sub_cancel,
    day, whole]

theorem offset_written : offset ['Z'] = .ok (0, []) := by rfl

theorem inYears_iff (second : Int) : InYears second ↔
    (Date.mk firstYear 1 1).dayNumber ≤ second / secondsPerDay ∧
      second / secondsPerDay ≤ (Date.mk lastYear 12 31).dayNumber := by
  have first : (Date.mk firstYear 1 1).dayNumber = -96465292 := by decide
  have last : (Date.mk lastYear 12 31).dayNumber = 95026236 := by decide
  simp only [InYears, firstSecond, lastSecond, first, last, secondsPerDay]
  omega

/-- The year of a moment is one of the representable years. -/
theorem year_day (t : Timestamp) :
    firstYear ≤ (dateOf t.day).year ∧ (dateOf t.day).year ≤ lastYear := by
  have inYears := (inYears_iff t.second).mp t.inYears
  obtain ⟨era, p, number, date⟩ := exists_dateOf t.day
  rw [← day, number, show (Date.mk firstYear 1 1).dayNumber = -96465292 by decide,
    show (Date.mk lastYear 12 31).dayNumber = 95026236 by decide] at inYears
  rw [date, EraDay.year_date]
  have turn : p.month < 10 ↔ p.day < 306 := by
    simp only [EraDay.month]
    omega
  have century := p.century_mem
  have cycle := p.cycle_mem
  have year := p.year_mem
  have dayInYear := p.day_mem
  simp only [turn, Calendar.daysPerEra, Calendar.daysToEpoch, EraDay.yearStart, EraDay.yearNumber,
    firstYear, lastYear] at *
  clear number date turn
  -- the first and the last era are incomplete, all others lie inside
  have first : era = -656 ∨ -655 ≤ era := by omega
  have last : era = 655 ∨ era ≤ 654 := by omega
  constructor
  · rcases first with rfl | later <;> split <;> omega
  · rcases last with rfl | earlier <;> split <;> omega

/-- The date and the second of the day give the moment back. -/
theorem assemble_day (t : Timestamp) :
    assemble (dateOf t.day) t.secondOfDay t.nanos 0 = .ok t := by
  have second : t.day * secondsPerDay + t.secondOfDay - 0 * 60 = t.second := by
    simp only [day, secondOfDay, secondsPerDay]
    omega
  have exact : ofParts? t.second t.nanos = some t := dif_pos ⟨t.inYears, t.inSecond⟩
  simp only [assemble, Calendar.dayNumber_dateOf, second, exact]
  rw [if_neg (not_not.mpr ⟨Calendar.isValid_dateOf t.day, t.year_day⟩), if_neg (by decide)]

/-- A moment is read back from its written form, if it is no leap second or one at the end of a
minute. -/
theorem read_written_of (t : Timestamp)
    (inMinute : t.nanos < nanosPerSecond ∨ t.second % 60 = 59) : read t.written = .ok t := by
  have inDay : t.secondOfDay < 86400 := by
    simp only [secondOfDay, secondsPerDay]
    omega
  have inSecond : t.nanos < nanosPerSecond ∨
      t.nanos < 2 * nanosPerSecond ∧ t.secondOfDay % 60 = 59 := by
    have := t.inSecond
    simp only [InSecond, secondOfDay, secondsPerDay] at this ⊢
    omega
  have date := date_written ('T' :: (writtenTime t.secondOfDay t.nanos ++ ['Z']))
    (Calendar.isValid_dateOf t.day) t.year_day rfl
  have time := timeOfDay_written ['Z'] inDay inSecond rfl (by decide)
  have divider : divider ('T' :: (writtenTime t.secondOfDay t.nanos ++ ['Z']))
    = .ok ((), writtenTime t.secondOfDay t.nanos ++ ['Z']) := rfl
  have noMore : (trimStart []).isEmpty = true := rfl
  rw [read, written, String.toList_ofList]
  simp only [readChars, writtenChars, date, divider, time, offset_written, noMore,
    not_true_eq_false, if_false, bind, Except.bind]
  exact t.assemble_day

/-! ### Leap seconds within a minute -/

/-- A leap second that does not follow the last second of a minute. -/
def WithinMinute (t : Timestamp) : Prop := nanosPerSecond ≤ t.nanos ∧ t.second % 60 ≠ 59

instance (t : Timestamp) : Decidable t.WithinMinute := by unfold WithinMinute; infer_instance

/-- The moment that a written moment is read as. A leap second within a minute has no written form
of its own: it looks like the second after it. -/
def asRead (t : Timestamp) : Timestamp :=
  if within : t.WithinMinute then
    { second := t.second + 1
      nanos := t.nanos - nanosPerSecond
      inYears := by
        have last : lastSecond = 8210266876799 := by decide
        obtain ⟨after, before⟩ := t.inYears
        have := within.2
        constructor <;> omega
      inSecond := Nat.lt_of_le_of_lt (Nat.sub_le ..) t.inSecond }
  else t

theorem asRead_of_withinMinute {t : Timestamp} (within : t.WithinMinute) :
    t.asRead.second = t.second + 1 ∧ t.asRead.nanos = t.nanos - nanosPerSecond := by
  rw [asRead, dif_pos within]
  exact ⟨rfl, rfl⟩

theorem asRead_eq_self {t : Timestamp} (plain : ¬t.WithinMinute) : t.asRead = t := dif_neg plain

/-- Only leap seconds within a minute are read as another moment. -/
theorem asRead_eq_self_iff (t : Timestamp) : t.asRead = t ↔ ¬t.WithinMinute := by
  refine ⟨fun same within => ?_, asRead_eq_self⟩
  have later := (asRead_of_withinMinute within).1
  rw [same] at later
  omega

/-- A leap second within a minute is written as the second after it. -/
theorem written_asRead (t : Timestamp) : t.asRead.written = t.written := by
  by_cases within : t.WithinMinute
  · obtain ⟨second, nanos⟩ := asRead_of_withinMinute within
    obtain ⟨leap, early⟩ := within
    have inSecond := t.inSecond
    have sameDay : t.asRead.day = t.day := by
      simp only [day, second, secondsPerDay]
      omega
    have next : t.asRead.secondOfDay = t.secondOfDay + 1 := by
      simp only [secondOfDay, second, secondsPerDay]
      omega
    have early : t.secondOfDay % 60 ≠ 59 := by
      simp only [secondOfDay, secondsPerDay]
      omega
    simp only [InSecond, nanosPerSecond] at leap inSecond
    have hour : (t.secondOfDay + 1) / 3600 = t.secondOfDay / 3600 := by omega
    have minute : (t.secondOfDay + 1) / 60 = t.secondOfDay / 60 := by omega
    have shown : (t.secondOfDay + 1) % 60 + (t.nanos - 1000000000) / 1000000000 =
        t.secondOfDay % 60 + t.nanos / 1000000000 := by omega
    have fraction : (t.nanos - 1000000000) % 1000000000 = t.nanos % 1000000000 := by omega
    simp only [written, writtenChars, writtenTime, sameDay, next, nanos, nanosPerSecond, hour,
      minute, shown, fraction]
  · rw [asRead_eq_self within]

/-- What is read is not read as another moment again. -/
theorem not_withinMinute_asRead (t : Timestamp) : ¬t.asRead.WithinMinute := by
  by_cases within : t.WithinMinute
  · obtain ⟨-, nanos⟩ := asRead_of_withinMinute within
    have inSecond := t.inSecond
    rintro ⟨leap, -⟩
    simp only [InSecond, nanos, nanosPerSecond] at leap inSecond
    omega
  · rwa [asRead_eq_self within]

/-- What the written form of a moment is read as. -/
theorem read_written (t : Timestamp) : read t.written = .ok t.asRead := by
  have plain := t.not_withinMinute_asRead
  rw [← t.written_asRead]
  apply read_written_of
  simp only [WithinMinute] at plain
  omega

end ChangeDispatch.Timestamp
