import OData.Calendar.Instant
import OData.Proofs.Comparisons
import OData.Proofs.PlaceOrder

/-!
# Day numbers

A year has as many days as lie between its first day and that of the next year
(`firstDay_succ`), and a date lies behind as many days of its year as its place in
the year says (`dayOfYear_lt`).  So later dates have greater numbers
(`compare_dayNumber`), and the number of a date leads back to it
(`ofDayNumber?_dayNumber`): the guess from the mean length of years is never off by
more than one.

Instants are therefore in the order of time: of their seconds from the start of
1970, and within one second of their nanoseconds (`compare_eq`).
-/

namespace OData

namespace Date

/-! ## Years -/

/-- The number of days of a year. -/
def daysInYear (year : Int) : Nat := if isLeapYear year then 366 else 365

theorem firstDay_succ (year : Int) : firstDay (year + 1) = firstDay year + daysInYear year := by
  simp only [firstDay, leapsBefore, daysInYear, isLeapYear, Bool.and_eq_true, Bool.or_eq_true,
    decide_eq_true_eq]
  split <;> omega

/-- A later year begins on a later day. -/
theorem firstDay_lt {y z : Int} (h : y < z) : firstDay y + 365 ≤ firstDay z := by
  simp only [firstDay, leapsBefore]
  omega

theorem firstDay_le {y z : Int} (h : y ≤ z) : firstDay y ≤ firstDay z := by
  rcases Int.lt_or_eq_of_le h with h | rfl
  · have := firstDay_lt h
    omega
  · exact Int.le_refl _

/-! ## Months -/

variable {year : Int} {month : Nat}

theorem daysBeforeMonth_succ (h : 1 ≤ month) :
    daysBeforeMonth year (month + 1) = daysBeforeMonth year month + daysInMonth year month := by
  obtain ⟨month, rfl⟩ := Nat.exists_eq_add_of_le' h
  rfl

/-- The months before a later month have the days of this one among theirs. -/
theorem daysBeforeMonth_add_le (year : Int) {later : Nat} (h : 1 ≤ month) (hlater : month < later) :
    daysBeforeMonth year month + daysInMonth year month ≤ daysBeforeMonth year later := by
  induction later with
  | zero => exact absurd hlater (Nat.not_lt_zero _)
  | succ later ih =>
    rcases Nat.lt_or_eq_of_le (Nat.le_of_lt_succ hlater) with hlt | rfl
    · rw [daysBeforeMonth_succ (Nat.le_trans h (Nat.le_of_lt hlt))]
      exact Nat.le_trans (ih hlt) (Nat.le_add_right _ _)
    · exact Nat.le_of_eq (daysBeforeMonth_succ h).symm

/-- Twelve months make a year. -/
theorem daysBeforeMonth_thirteen (year : Int) : daysBeforeMonth year 13 = daysInYear year := by
  simp only [daysBeforeMonth, daysInMonth, daysInYear]
  cases isLeapYear year <;> rfl

/-! ## The day of a year -/

/-- The number of days of its year before a date. -/
def dayOfYear (d : Date) : Nat := daysBeforeMonth d.year d.month + (d.day - 1)

theorem dayNumber_eq (d : Date) : d.dayNumber = firstDay d.year + d.dayOfYear := by
  rw [dayNumber, dayOfYear, Int.natCast_add, Int.add_assoc]

theorem dayOfYear_lt_of_month_lt {d : Date} (h : d.month < month) :
    d.dayOfYear < daysBeforeMonth d.year month := by
  have hmonth := daysBeforeMonth_add_le d.year d.month_mem.1 h
  have hday := d.day_mem
  rw [dayOfYear]
  omega

theorem dayOfYear_lt (d : Date) : d.dayOfYear < daysInYear d.year := by
  rw [← daysBeforeMonth_thirteen]
  exact dayOfYear_lt_of_month_lt (Nat.lt_succ_of_le d.month_mem.2)

/-! ## The order of dates -/

/-- A later date has a greater number. -/
theorem dayNumber_lt {a b : Date} (h : a.compare b = .lt) : a.dayNumber < b.dayNumber := by
  simp only [Date.compare, Ordering.then_eq_lt, Int.compare_eq_lt, Int.compare_eq_eq,
    Nat.compare_eq_lt, Nat.compare_eq_eq] at h
  rw [dayNumber_eq, dayNumber_eq]
  rcases h with hyear | ⟨hyear, hmonth | ⟨hmonth, hday⟩⟩
  · have hfirst : firstDay (a.year + 1) ≤ firstDay b.year := firstDay_le hyear
    have hlt := a.dayOfYear_lt
    rw [firstDay_succ] at hfirst
    omega
  · have hlt := dayOfYear_lt_of_month_lt hmonth
    have hle : daysBeforeMonth b.year b.month ≤ b.dayOfYear := Nat.le_add_right _ _
    rw [hyear] at hlt ⊢
    omega
  · have hpos := a.day_mem.1
    rw [dayOfYear, dayOfYear, hyear, hmonth]
    omega

/-- Dates are in the order of their numbers. -/
theorem compare_dayNumber (a b : Date) : compare a.dayNumber b.dayNumber = a.compare b := by
  cases h : a.compare b with
  | lt => exact Int.compare_eq_lt.2 (dayNumber_lt h)
  | gt =>
    rw [compare_swap, Ordering.swap_eq_gt] at h
    exact Int.compare_eq_gt.2 (dayNumber_lt h)
  | eq =>
    simp only [Date.compare, Ordering.then_eq_eq, Int.compare_eq_eq, Nat.compare_eq_eq] at h
    obtain ⟨hyear, hmonth, hday⟩ := h
    rw [dayNumber, dayNumber, hyear, hmonth, hday]
    exact Int.compare_eq_eq.2 rfl

/-! ## The date with a number -/

/-- The year of a day lies next to the guess, and no later year there begins before the day. -/
theorem find?_year {n : Int} (hfirst : firstDay year ≤ n) (hlast : n < firstDay (year + 1)) :
    [1970 + n * 400 / 146097 + 1, 1970 + n * 400 / 146097, 1970 + n * 400 / 146097 - 1].find?
      (fun y => firstDay y ≤ n) = some year := by
  have hlater {y : Int} (h : year < y) : ¬ firstDay y ≤ n := by
    have := firstDay_le (show year + 1 ≤ y from h)
    omega
  have hguess : year - 1 ≤ 1970 + n * 400 / 146097 ∧ 1970 + n * 400 / 146097 ≤ year + 1 := by
    simp only [firstDay, leapsBefore] at hfirst hlast
    omega
  generalize 1970 + n * 400 / 146097 = guess at hguess
  obtain rfl | rfl | rfl : year = guess + 1 ∨ year = guess ∨ year = guess - 1 := by omega
  · simp [hfirst]
  · simp [hfirst, hlater (show year < year + 1 by omega)]
  · simp [hfirst, hlater (show guess - 1 < guess by omega),
      hlater (show guess - 1 < guess + 1 by omega)]

/-- The month and the day are found among the months from one that is not later. -/
theorem monthAfter?_range' (d : Date) (count : Nat) {first : Nat} (hpos : 1 ≤ first)
    (hle : first ≤ d.month) (hlt : d.month < first + count) :
    monthAfter? d.year (List.range' first count) (d.dayOfYear - daysBeforeMonth d.year first) =
      some (d.month, d.day) := by
  induction count generalizing first with
  | zero => omega
  | succ count ih =>
    rw [List.range'_succ, monthAfter?]
    rcases Nat.lt_or_eq_of_le hle with hlater | rfl
    · -- The first of the months is over before the day.
      have hmonth := daysBeforeMonth_add_le d.year hpos hlater
      have hday : daysBeforeMonth d.year d.month ≤ d.dayOfYear := Nat.le_add_right _ _
      rw [if_neg (by omega), Nat.sub_sub, ← daysBeforeMonth_succ hpos]
      exact ih (Nat.le_succ_of_le hpos) hlater (by omega)
    · have hday := d.day_mem
      rw [dayOfYear, Nat.add_sub_cancel_left, if_pos (by omega), Nat.sub_add_cancel hday.1]

/-- The number of a date leads back to it. -/
theorem ofDayNumber?_dayNumber (d : Date) : ofDayNumber? d.dayNumber = some d := by
  have hplace := d.dayOfYear_lt
  have hfirst : firstDay d.year ≤ d.dayNumber := by
    rw [dayNumber_eq]
    omega
  have hlast : d.dayNumber < firstDay (d.year + 1) := by
    rw [dayNumber_eq, firstDay_succ]
    omega
  have hrest : (d.dayNumber - firstDay d.year).toNat = d.dayOfYear := by
    rw [dayNumber_eq, Int.add_comm, Int.add_sub_cancel, Int.toNat_natCast]
  have hmonth : monthAfter? d.year [1, 2, 3, 4, 5, 6, 7, 8, 9, 10, 11, 12] d.dayOfYear =
      some (d.month, d.day) :=
    monthAfter?_range' d 12 (Nat.le_refl 1) d.month_mem.1 (Nat.lt_succ_of_le d.month_mem.2)
  simp only [ofDayNumber?, find?_year hfirst hlast, Option.bind_eq_bind, Option.bind_some, hrest,
    hmonth, of?_self]

end Date

namespace Instant

/-! ## The order of time -/

/-- Days come first, and the seconds of one day after them. -/
theorem compare_unixSeconds (a b : Instant) : compare a.unixSeconds b.unixSeconds =
    (a.date.compare b.date).then (compare a.second b.second) := by
  rw [← Date.compare_dayNumber, ← compare_mul_add _ _ a.second_lt b.second_lt]
  rfl

/-- Instants are in the order of their seconds from the start of 1970, and within one second of their
nanoseconds. -/
theorem compare_eq (a b : Instant) : a.compare b =
    (compare a.unixSeconds b.unixSeconds).then (compare a.nanos b.nanos) := by
  rw [compare_unixSeconds, Ordering.then_assoc]
  rfl

end Instant

end OData
