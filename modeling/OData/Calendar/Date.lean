/-!
# Dates

Dates of the Gregorian calendar, which runs backwards without a break before
its introduction and has a year zero.  A `Date` is valid by its proof fields,
and `Date.of?` is the one way to make a date from numbers that may not be one.

Days are counted from the first of January 1970.  `firstDay` counts to the
start of a year, and `ofDayNumber?` finds the year in which a day lies next to
a guess from the mean length of years.

The first and the last year are taken from the documentation of the calendar
library, `chrono`.
-/

namespace OData

/-! ## Years and months -/

/-- Whether a year has a twenty-ninth of February. -/
def isLeapYear (year : Int) : Bool := year % 4 = 0 && (year % 100 ≠ 0 || year % 400 = 0)

/-- The number of days of a month. -/
def daysInMonth (year : Int) (month : Nat) : Nat :=
  if month = 2 then (if isLeapYear year then 29 else 28)
  else if month = 4 || month = 6 || month = 9 || month = 11 then 30
  else 31

/-- The first year of the calendar. -/
def firstYear : Int := -262143

/-- The last year of the calendar. -/
def lastYear : Int := 262142

/-- A day of the calendar. -/
structure Date where
  /-- The year. -/
  year : Int
  /-- The month, from one. -/
  month : Nat
  /-- The day of the month, from one. -/
  day : Nat
  /-- The year is one of the calendar. -/
  year_mem : firstYear ≤ year ∧ year ≤ lastYear
  /-- There are twelve months. -/
  month_mem : 1 ≤ month ∧ month ≤ 12
  /-- The month has the day. -/
  day_mem : 1 ≤ day ∧ day ≤ daysInMonth year month
deriving DecidableEq

namespace Date

/-- The date with the given numbers, if there is one. -/
def of? (year : Int) (month day : Nat) : Option Date :=
  if hy : firstYear ≤ year ∧ year ≤ lastYear then
    if hm : 1 ≤ month ∧ month ≤ 12 then
      if hd : 1 ≤ day ∧ day ≤ daysInMonth year month then some ⟨year, month, day, hy, hm, hd⟩
      else none
    else none
  else none

/-- The numbers of a date make that date. -/
theorem of?_self (d : Date) : of? d.year d.month d.day = some d := by
  simp [of?, d.year_mem, d.month_mem, d.day_mem]

/-! ## Neighbours and order -/

/-- The day after a date. -/
def next? (d : Date) : Option Date :=
  if d.day < daysInMonth d.year d.month then of? d.year d.month (d.day + 1)
  else if d.month < 12 then of? d.year (d.month + 1) 1
  else of? (d.year + 1) 1 1

/-- The day before a date. -/
def previous? (d : Date) : Option Date :=
  if 1 < d.day then of? d.year d.month (d.day - 1)
  else if 1 < d.month then of? d.year (d.month - 1) (daysInMonth d.year (d.month - 1))
  else of? (d.year - 1) 12 31

/-- The order of dates. -/
protected def compare (a b : Date) : Ordering :=
  (compare a.year b.year).then ((compare a.month b.month).then (compare a.day b.day))

/-! ## Day numbers -/

/-- The number of leap years before a year, up to a constant. -/
def leapsBefore (year : Int) : Int := (year - 1) / 4 - (year - 1) / 100 + (year - 1) / 400

/-- The number of the first day of a year. -/
def firstDay (year : Int) : Int := 365 * (year - 1970) + leapsBefore year - leapsBefore 1970

/-- The number of days of a year before a month. -/
def daysBeforeMonth (year : Int) : (month : Nat) → Nat
  | 0 | 1 => 0
  | month + 2 => daysBeforeMonth year (month + 1) + daysInMonth year (month + 1)

/-- The number of a date, counted from the first of January 1970. -/
def dayNumber (d : Date) : Int := firstDay d.year + daysBeforeMonth d.year d.month + (d.day - 1 : Nat)

/-- The month and the day after some days of a year, looked for in the given months. -/
def monthAfter? (year : Int) : List Nat → Nat → Option (Nat × Nat)
  | [], _ => none
  | month :: months, days =>
    if days < daysInMonth year month then some (month, days + 1)
    else monthAfter? year months (days - daysInMonth year month)

/-- The date with a number, if it is one of the calendar. -/
def ofDayNumber? (n : Int) : Option Date := do
  let guess := 1970 + n * 400 / 146097
  let year ← [guess + 1, guess, guess - 1].find? fun year => firstDay year ≤ n
  let (month, day) ← monthAfter? year [1, 2, 3, 4, 5, 6, 7, 8, 9, 10, 11, 12] (n - firstDay year).toNat
  of? year month day

example : (of? 2024 2 29).isSome ∧ of? 2023 2 29 = none ∧ (of? 0 2 29).isSome := by decide
example : (of? 2024 12 31).bind next? = of? 2025 1 1 := by decide
example : (of? 1970 1 1).map dayNumber = some 0 ∧ (of? 2000 3 1).map dayNumber = some 11017 := by decide
example : ofDayNumber? 11016 = of? 2000 2 29 ∧ ofDayNumber? (-1) = of? 1969 12 31 := by decide

end Date

end OData
