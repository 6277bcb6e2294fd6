/-!
# The proleptic Gregorian calendar

Days are counted from the first day of year 1, which is day 0.

Main definitions:

- `dayNumber`: the day of a date.
- `ofDayNumber`: the date of a day.
-/

namespace PuzzleContest

/-- A date of the calendar. -/
structure Date where
  year : Nat
  month : Nat
  day : Nat
deriving DecidableEq, Repr

namespace Date

/-- Whether a year has a leap day. -/
def isLeap (year : Nat) : Bool := year % 4 = 0 && (year % 100 ≠ 0 || year % 400 = 0)

/-- The length of a month. -/
def monthLength (year month : Nat) : Nat :=
  if month = 2 then if isLeap year then 29 else 28
  else if month = 4 ∨ month = 6 ∨ month = 9 ∨ month = 11 then 30 else 31

/-- The days before the first of January of a year. -/
def daysBeforeYear (year : Nat) : Nat :=
  let past := year - 1
  past * 365 + past / 4 - past / 100 + past / 400

/-- The days of a year before the first of a month. -/
def daysBeforeMonth (year : Nat) : Nat → Nat
  | 0 | 1 => 0
  | month + 2 => daysBeforeMonth year (month + 1) + monthLength year (month + 1)

/-- Whether the date exists, in the years 0 to 9999. -/
def isWellFormed (d : Date) : Bool :=
  d.year ≤ 9999 && 1 ≤ d.month && d.month ≤ 12 && 1 ≤ d.day && d.day ≤ monthLength d.year d.month

/-- The number of days since the first day of year 1. -/
def dayNumber (d : Date) : Nat :=
  daysBeforeYear d.year + daysBeforeMonth d.year d.month + (d.day - 1)

/-- The year that a day falls in: whole cycles of 400, 100, 4 and 1 years. -/
def yearOf (n : Nat) : Nat :=
  let c := n % 146097
  let h := min (c / 36524) 3
  let q := c - h * 36524
  let r := q % 1461
  n / 146097 * 400 + h * 100 + q / 1461 * 4 + min (r / 365) 3 + 1

/-- The last month that begins within so many days of the start of a year. -/
def monthOf (year : Nat) (days : Nat) : Nat :=
  1 + ((List.range 11).countP fun m => daysBeforeMonth year (m + 2) ≤ days)

/-- The date of a day. -/
def ofDayNumber (n : Nat) : Date :=
  let year := yearOf n
  let rest := n - daysBeforeYear year
  let month := monthOf year rest
  ⟨year, month, rest - daysBeforeMonth year month + 1⟩

end Date

end PuzzleContest
