import ChangeDispatch.Calendar

/-!
# The date of a day number

A day of an era is placed by its century, its cycle of four years, its year in that cycle
and its day in that year, years running from March to February. From these parts the
number of the day and its date are both plain sums, so `dateOf` is seen to give a date that
exists and whose number is the day.
-/
namespace ChangeDispatch.Calendar

/-- A day of an era. Only the last year of a cycle may have a leap day, and of the cycles
that end a century only the last has one. -/
structure EraDay where
  century : Int
  cycle : Int
  year : Int
  day : Int
  century_mem : 0 ≤ century ∧ century ≤ 3
  cycle_mem : 0 ≤ cycle ∧ cycle ≤ 24
  year_mem : 0 ≤ year ∧ year ≤ 3
  day_mem : 0 ≤ day ∧ day ≤ 365
  leap : day = 365 → year = 3 ∧ (cycle < 24 ∨ century = 3)

namespace EraDay

/-- The year of the era, counted from 0. -/
def yearNumber (p : EraDay) : Int := 100 * p.century + 4 * p.cycle + p.year

/-- Days from the start of the era to the start of the year. -/
def yearStart (p : EraDay) : Int := 36524 * p.century + 1461 * p.cycle + 365 * p.year

/-- Months from March, counted from 0. -/
def month (p : EraDay) : Int := (5 * p.day + 2) / 153

def dayOfMonth (p : EraDay) : Int := p.day - daysBeforeMonth p.month + 1

/-- The date of the day in the era `era`. -/
def date (p : EraDay) (era : Int) : Date :=
  if p.month < 10 then ⟨era * 400 + p.yearNumber, (p.month + 3).toNat, p.dayOfMonth.toNat⟩
  else ⟨era * 400 + p.yearNumber + 1, (p.month - 9).toNat, p.dayOfMonth.toNat⟩

theorem year_date (p : EraDay) (era : Int) :
    (p.date era).year = era * 400 + p.yearNumber + if p.month < 10 then 0 else 1 := by
  simp only [date]
  split <;> simp

theorem yearNumber_mem (p : EraDay) : 0 ≤ p.yearNumber ∧ p.yearNumber < 400 := by
  obtain ⟨c, q, s, t, hc, hq, hs, ht, leap⟩ := p
  simp only [yearNumber]
  omega

theorem exists_day {d : Int} (first : 0 ≤ d) (last : d < daysPerEra) :
    ∃ p : EraDay, d = p.yearStart + p.day := by
  simp only [daysPerEra] at last
  obtain ⟨c, hc⟩ : ∃ c, 0 ≤ c ∧ c ≤ 3 ∧ 36524 * c ≤ d ∧
      d ≤ 36524 * c + 36523 + (if c = 3 then 1 else 0) := ⟨min (d / 36524) 3, by omega⟩
  obtain ⟨q, hq⟩ : ∃ q, 0 ≤ q ∧ q ≤ 24 ∧ 1461 * q ≤ d - 36524 * c ∧
      d - 36524 * c ≤ 1461 * q + 1460 := ⟨(d - 36524 * c) / 1461, by omega⟩
  obtain ⟨s, hs⟩ : ∃ s, 0 ≤ s ∧ s ≤ 3 ∧ 365 * s ≤ d - 36524 * c - 1461 * q ∧
      d - 36524 * c - 1461 * q ≤ 365 * s + 364 + (if s = 3 then 1 else 0) :=
    ⟨min ((d - 36524 * c - 1461 * q) / 365) 3, by omega⟩
  exact ⟨{
    century := c, cycle := q, year := s, day := d - 36524 * c - 1461 * q - 365 * s
    century_mem := by omega
    cycle_mem := by omega
    year_mem := by omega
    day_mem := by omega
    leap := by omega }, by simp only [yearStart]; omega⟩

theorem daysBeforeYear_yearNumber (p : EraDay) : daysBeforeYear p.yearNumber = p.yearStart := by
  obtain ⟨c, q, s, t, hc, hq, hs, ht, leap⟩ := p
  simp only [daysBeforeYear, yearNumber, yearStart]
  omega

theorem yearOfEra_day (p : EraDay) : yearOfEra (p.yearStart + p.day) = p.yearNumber := by
  obtain ⟨c, q, s, t, hc, hq, hs, ht, leap⟩ := p
  simp only [yearOfEra, yearNumber, yearStart]
  have inCentury : 1461 * q + 365 * s + t ≤ 36523 ∨ c = 3 ∧ 1461 * q + 365 * s + t ≤ 36524 := by
    by_cases last : t = 365
    · have := leap last
      omega
    · omega
  generalize hd : 36524 * c + 1461 * q + 365 * s + t = d
  have centuries : d / 36524 - d / 146096 = c := by
    obtain rfl | rfl | rfl | rfl : c = 0 ∨ c = 1 ∨ c = 2 ∨ c = 3 := by omega
    all_goals omega
  -- a cycle has one day more than 1460, and these days add up to more than a year at most
  have cycles : d / 1460
      = 25 * c + q + (if 1460 ≤ 24 * c + q + 365 * s + t then 1 else 0) := by omega
  omega

theorem month_mem (p : EraDay) : 0 ≤ p.month ∧ p.month ≤ 11 := by
  have := p.day_mem
  simp only [month]
  omega

/-- The days of a month start at 1 and stay below its length; February may have its 29th. -/
theorem dayOfMonth_mem (p : EraDay) : 1 ≤ p.dayOfMonth ∧ p.dayOfMonth ≤ 31 ∧
    (p.month ∈ [1, 3, 6, 8] → p.dayOfMonth ≤ 30) ∧
    (p.month = 11 → p.dayOfMonth ≤ 29 ∧ (p.dayOfMonth = 29 → p.day = 365)) := by
  have bounds := p.day_mem
  simp only [dayOfMonth, daysBeforeMonth, month, List.mem_cons, List.not_mem_nil, or_false]
  generalize hm : (5 * p.day + 2) / 153 = m
  have : m = 0 ∨ m = 1 ∨ m = 2 ∨ m = 3 ∨ m = 4 ∨ m = 5 ∨ m = 6 ∨ m = 7 ∨ m = 8 ∨ m = 9 ∨
      m = 10 ∨ m = 11 := by omega
  rcases this with rfl | rfl | rfl | rfl | rfl | rfl | rfl | rfl | rfl | rfl | rfl | rfl
  all_goals omega

/-- A year that ends with a leap day is followed by 1 March of a leap year. -/
theorem isLeap_of_leap (p : EraDay) (era : Int) (last : p.day = 365) :
    isLeap (era * 400 + p.yearNumber + 1) = true := by
  obtain ⟨year, inside⟩ := p.leap last
  have cycles := p.cycle_mem
  apply decide_eq_true
  simp only [yearNumber, year]
  refine ⟨by omega, ?_⟩
  by_cases early : p.cycle < 24
  · left; omega
  · right; omega

/-- February has its 29th where the year ends with a leap day. -/
theorem dayOfMonth_february (p : EraDay) (era : Int) (february : p.month = 11) :
    p.dayOfMonth ≤ daysInMonth (era * 400 + p.yearNumber + 1) 2 := by
  obtain ⟨atMost, leap⟩ := p.dayOfMonth_mem.2.2.2 february
  simp only [daysInMonth]
  cases h : isLeap (era * 400 + p.yearNumber + 1)
  · have : p.dayOfMonth ≠ 29 := by
      intro last
      rw [p.isLeap_of_leap era (leap last)] at h
      cases h
    simp only [Bool.false_eq_true, if_false]
    omega
  · simp only [if_true]
    omega

theorem date_isValid (p : EraDay) (era : Int) : (p.date era).isValid = true := by
  obtain ⟨first, atMost, short, -⟩ := p.dayOfMonth_mem
  have february := p.dayOfMonth_february era
  have months := p.month_mem
  apply decide_eq_true
  simp only [date]
  generalize p.month = m at *
  generalize p.dayOfMonth = d at *
  obtain rfl | rfl | rfl | rfl | rfl | rfl | rfl | rfl | rfl | rfl | rfl | rfl :
    m = 0 ∨ m = 1 ∨ m = 2 ∨ m = 3 ∨ m = 4 ∨ m = 5 ∨ m = 6 ∨ m = 7 ∨ m = 8 ∨ m = 9 ∨
      m = 10 ∨ m = 11 := by omega
  case inr.inr.inr.inr.inr.inr.inr.inr.inr.inr.inr =>
    have short := february rfl
    simp only [Int.reduceLT, if_false]
    refine ⟨by decide, by decide, by show 1 ≤ d.toNat; omega, ?_⟩
    show d.toNat ≤ daysInMonth (era * 400 + p.yearNumber + 1) 2
    omega
  all_goals simp [daysInMonth] at short ⊢
  all_goals omega

theorem dayNumber_date (p : EraDay) (era : Int) :
    (p.date era).dayNumber = era * daysPerEra + (p.yearStart + p.day) - daysToEpoch := by
  have years := p.yearNumber_mem
  have months := p.month_mem
  have first := p.dayOfMonth_mem.1
  have era_eq : (era * 400 + p.yearNumber) / 400 = era := by omega
  have year_eq : (era * 400 + p.yearNumber) % 400 = p.yearNumber := by omega
  have place : daysBeforeMonth p.month + (p.dayOfMonth - 1) = p.day := by
    simp only [dayOfMonth]
    omega
  have start := p.daysBeforeYear_yearNumber
  have day : (p.dayOfMonth.toNat : Int) = p.dayOfMonth := Int.toNat_of_nonneg (by omega)
  simp only [date]
  split
  · have late : ¬ (p.month + 3).toNat ≤ 2 := by omega
    have month : ((p.month + 3).toNat : Int) - 3 = p.month := by omega
    simp only [Date.dayNumber, if_neg late, era_eq, year_eq, month, day, start]
    omega
  · have early : (p.month - 9).toNat ≤ 2 := by omega
    have month : ((p.month - 9).toNat : Int) + 9 = p.month := by omega
    simp only [Date.dayNumber, if_pos early, Int.add_sub_cancel, era_eq, year_eq, month, day, start]
    omega

end EraDay

/-- Every day number has a place in an era, and `dateOf` gives its date. -/
theorem exists_dateOf (n : Int) : ∃ (era : Int) (p : EraDay),
    n = era * daysPerEra + (p.yearStart + p.day) - daysToEpoch ∧ dateOf n = p.date era := by
  have positive : 0 < daysPerEra := by decide
  obtain ⟨p, hp⟩ := EraDay.exists_day (Int.emod_nonneg (n + daysToEpoch) (Int.ne_of_gt positive))
    (Int.emod_lt_of_pos (n + daysToEpoch) positive)
  refine ⟨(n + daysToEpoch) / daysPerEra, p, ?_, ?_⟩
  · have := Int.mul_ediv_add_emod (n + daysToEpoch) daysPerEra
    rw [Int.mul_comm] at this
    omega
  · have day : p.yearStart + p.day - p.yearStart = p.day := by omega
    simp only [dateOf, hp, p.yearOfEra_day, p.daysBeforeYear_yearNumber, day]
    rfl

theorem isValid_dateOf (n : Int) : (dateOf n).isValid = true := by
  obtain ⟨era, p, -, date⟩ := exists_dateOf n
  rw [date]
  exact p.date_isValid era

/-- The date of a day number has that number. -/
theorem dayNumber_dateOf (n : Int) : (dateOf n).dayNumber = n := by
  obtain ⟨era, p, number, date⟩ := exists_dateOf n
  rw [date, p.dayNumber_date, ← number]

end ChangeDispatch.Calendar
