import PuzzleContest.Calendar

/-!
# Days and dates

The date of a day exists, and its day is that day again.  The year of a day is found by taking off whole
cycles of 400, 100, 4 and 1 years, of which the last may be a day longer; the month is found by counting
those that have begun.

Main results:

- `Date.exists_cycles`: the cycles before a day, and what is left of its year.
- `Date.day_of_yearOf`: a day lies in its year.
- `Date.day_of_monthOf`: a day of a year lies in its month.
- `Date.dayNumber_ofDayNumber`, `Date.isWellFormed_ofDayNumber`: up to the year 9999 the date of a day
  exists and is that of the day.
-/

namespace PuzzleContest.Date

variable {n year days : Nat}

/-! ## Years -/

/-- The length of a year. -/
def yearLength (year : Nat) : Nat := if isLeap year then 366 else 365

theorem isLeap_iff : isLeap year = true ↔ year % 4 = 0 ∧ (year % 100 ≠ 0 ∨ year % 400 = 0) := by
  simp [isLeap]

/-- The parts of a day's number: cycles of 400, 100 and 4 years, single years, and the days after them.
Only the last year of four has another day, unless it is the last of 100 and not of 400. -/
theorem exists_cycles (n : Nat) : ∃ a b q y r : Nat, b ≤ 3 ∧ q ≤ 24 ∧ y ≤ 3 ∧
    yearOf n = 400 * a + 100 * b + 4 * q + y + 1 ∧
    n = 146097 * a + 36524 * b + 1461 * q + 365 * y + r ∧
    (r < 365 ∨ r = 365 ∧ y = 3 ∧ (q < 24 ∨ b = 3)) := by
  have hn : n = 146097 * (n / 146097) + n % 146097 := by omega
  have hc : n % 146097 < 146097 := by omega
  have hyear : yearOf n = n / 146097 * 400 + min (n % 146097 / 36524) 3 * 100 +
      (n % 146097 - min (n % 146097 / 36524) 3 * 36524) / 1461 * 4 +
      min ((n % 146097 - min (n % 146097 / 36524) 3 * 36524) % 1461 / 365) 3 + 1 := rfl
  generalize n / 146097 = a at *
  generalize n % 146097 = c at *
  have hb : c = 36524 * min (c / 36524) 3 + (c - min (c / 36524) 3 * 36524) := by omega
  have hcentury : c - min (c / 36524) 3 * 36524 < 36524 ∨
      c - min (c / 36524) 3 * 36524 = 36524 ∧ min (c / 36524) 3 = 3 := by omega
  have hbLe : min (c / 36524) 3 ≤ 3 := by omega
  generalize min (c / 36524) 3 = b at *
  generalize c - b * 36524 = s at *
  have hs : s = 1461 * (s / 1461) + s % 1461 := by omega
  have hd : s % 1461 < 1461 := by omega
  generalize s / 1461 = q at *
  generalize s % 1461 = d at *
  have hy : min (d / 365) 3 ≤ 3 := by omega
  have hlast : d - 365 * min (d / 365) 3 < 365 ∨
      d - 365 * min (d / 365) 3 = 365 ∧ min (d / 365) 3 = 3 ∧ d = 1460 := by omega
  have hr : d = 365 * min (d / 365) 3 + (d - 365 * min (d / 365) 3) := by omega
  generalize d - 365 * min (d / 365) 3 = r at *
  generalize min (d / 365) 3 = y at *
  exact ⟨a, b, q, y, r, hbLe, by omega, hy, by omega, by omega, by omega⟩

theorem daysBeforeYear_succ (past : Nat) :
    daysBeforeYear (past + 1) = past * 365 + past / 4 - past / 100 + past / 400 := rfl

/-- Four hundred years have 146097 days, a hundred of them 36524, and four 1461. -/
theorem daysBeforeYear_cycles {a b q y : Nat} (hb : b ≤ 3) (hq : q ≤ 24) (hy : y ≤ 3) :
    daysBeforeYear (400 * a + 100 * b + 4 * q + y + 1) =
      146097 * a + 36524 * b + 1461 * q + 365 * y := by
  have h4 : (400 * a + 100 * b + 4 * q + y) / 4 = 100 * a + 25 * b + q := by omega
  have h100 : (400 * a + 100 * b + 4 * q + y) / 100 = 4 * a + b := by omega
  have h400 : (400 * a + 100 * b + 4 * q + y) / 400 = a := by omega
  rw [daysBeforeYear_succ, h4, h100, h400]
  omega

/-- Every fourth year is a leap year, unless it ends a hundred years that do not end four hundred. -/
theorem isLeap_cycles {a b q : Nat} (hq : q ≤ 24) (h : q < 24 ∨ b = 3) :
    isLeap (400 * a + 100 * b + 4 * q + 3 + 1) = true := by
  rw [isLeap_iff]
  refine ⟨by omega, ?_⟩
  by_cases hcentury : q < 24
  · have h100 : (400 * a + 100 * b + 4 * q + 3 + 1) % 100 = 4 * q + 4 := by omega
    omega
  · have h400 : 400 * a + 100 * b + 4 * q + 3 + 1 = 400 * (a + 1) := by omega
    rw [h400, Nat.mul_mod_right]
    exact .inr rfl

/-- A day lies in its year. -/
theorem day_of_yearOf (n : Nat) :
    daysBeforeYear (yearOf n) ≤ n ∧ n - daysBeforeYear (yearOf n) < yearLength (yearOf n) := by
  rcases exists_cycles n with ⟨a, b, q, y, r, hb, hq, hy, hyear, hn, hr⟩
  have hsum : n = daysBeforeYear (yearOf n) + r := by
    rw [hyear, daysBeforeYear_cycles hb hq hy]
    exact hn
  have hlength : r < yearLength (yearOf n) := by
    unfold yearLength
    rcases hr with hr | ⟨hr, hlast, hcentury⟩
    · split <;> omega
    · rw [hyear, hlast, if_pos (isLeap_cycles hq hcentury), hr]
      decide
  refine ⟨Nat.le.intro hsum.symm, ?_⟩
  rw [Nat.sub_eq_of_eq_add' hsum]
  exact hlength

theorem yearOf_pos (n : Nat) : 1 ≤ yearOf n := Nat.le_add_left _ _

theorem yearOf_le (hn : n < 3652059) : yearOf n ≤ 9999 := by
  rcases exists_cycles n with ⟨a, b, q, y, r, hb, hq, hy, hyear, hsum, hr⟩
  rw [hyear]
  omega

/-! ## Months -/

/-- Of thresholds in order those that have been reached come first. -/
theorem le_iff_lt_countP {f : Nat → Nat} (hf : ∀ m, f m ≤ f (m + 1)) (x k : Nat) :
    ∀ m < k, f m ≤ x ↔ m < (List.range k).countP fun m => f m ≤ x := by
  induction k with
  | zero => exact fun m hm => absurd hm (Nat.not_lt_zero m)
  | succ k ih =>
    intro m hm
    simp only [List.range_succ, List.countP_append, List.countP_singleton, decide_eq_true_eq]
    have hle : (List.range k).countP (fun m => f m ≤ x) ≤ k :=
      Nat.le_trans List.countP_le_length (Nat.le_of_eq List.length_range)
    by_cases hlast : f k ≤ x
    · -- All before the last one have been reached with it.
      have hmono : ∀ d ≤ k, f (k - d) ≤ x := by
        intro d hd
        induction d with
        | zero => exact hlast
        | succ d ihd =>
          have hstep := hf (k - (d + 1))
          rw [show k - (d + 1) + 1 = k - d by omega] at hstep
          exact Nat.le_trans hstep (ihd (by omega))
      have hall : (List.range k).countP (fun m => f m ≤ x) = k := by
        refine (List.countP_eq_length.2 fun i hi => ?_).trans List.length_range
        have hik := List.mem_range.1 hi
        have hreached := hmono (k - i) (by omega)
        rw [show k - (k - i) = i by omega] at hreached
        exact decide_eq_true hreached
      have hreached := hmono (k - m) (by omega)
      rw [show k - (k - m) = m by omega] at hreached
      rw [if_pos hlast, hall]
      exact iff_of_true hreached hm
    · rw [if_neg hlast, Nat.add_zero]
      rcases Nat.lt_or_eq_of_le (Nat.le_of_lt_succ hm) with hlt | rfl
      · exact ih m hlt
      · exact iff_of_false hlast (Nat.not_lt.2 hle)

theorem daysBeforeMonth_succ (year month : Nat) : daysBeforeMonth year (month + 2) =
    daysBeforeMonth year (month + 1) + monthLength year (month + 1) := rfl

theorem daysBeforeMonth_thirteen (year : Nat) : daysBeforeMonth year 13 = yearLength year := by
  cases h : isLeap year <;> simp [daysBeforeMonth, monthLength, yearLength, h]

/-- A day of a year lies in its month. -/
theorem day_of_monthOf (hdays : days < yearLength year) :
    1 ≤ monthOf year days ∧ monthOf year days ≤ 12 ∧
      daysBeforeMonth year (monthOf year days) ≤ days ∧
      days - daysBeforeMonth year (monthOf year days) < monthLength year (monthOf year days) := by
  have hreached := le_iff_lt_countP (f := fun m => daysBeforeMonth year (m + 2))
    (fun m => Nat.le_add_right _ _) days 11
  have hmonth : monthOf year days =
      1 + (List.range 11).countP fun m => daysBeforeMonth year (m + 2) ≤ days := rfl
  have hle : (List.range 11).countP (fun m => daysBeforeMonth year (m + 2) ≤ days) ≤ 11 :=
    Nat.le_trans List.countP_le_length (Nat.le_of_eq List.length_range)
  generalize (List.range 11).countP (fun m => daysBeforeMonth year (m + 2) ≤ days) = k at *
  have hbegun : daysBeforeMonth year (k + 1) ≤ days := by
    cases k with
    | zero => exact Nat.zero_le _
    | succ k => exact (hreached k (by omega)).2 (Nat.lt_succ_self k)
  have hends : days < daysBeforeMonth year (k + 2) := by
    rcases Nat.lt_or_eq_of_le hle with hlt | rfl
    · exact Nat.not_le.1 fun h => Nat.lt_irrefl k ((hreached k hlt).1 h)
    · rw [daysBeforeMonth_thirteen]
      exact hdays
  rw [daysBeforeMonth_succ] at hends
  rw [hmonth, Nat.add_comm 1 k]
  omega

/-! ## Dates -/

theorem isWellFormed_iff {d : Date} : d.isWellFormed = true ↔ d.year ≤ 9999 ∧ 1 ≤ d.month ∧
    d.month ≤ 12 ∧ 1 ≤ d.day ∧ d.day ≤ monthLength d.year d.month := by
  simp [isWellFormed, and_assoc]

/-- The date of a day is that of the day. -/
theorem dayNumber_ofDayNumber (n : Nat) : (ofDayNumber n).dayNumber = n := by
  rcases day_of_yearOf n with ⟨hyear, hrest⟩
  rcases day_of_monthOf hrest with ⟨-, -, hmonth, -⟩
  simp only [dayNumber, ofDayNumber]
  omega

/-- Up to the year 9999 the date of a day exists. -/
theorem isWellFormed_ofDayNumber (hn : n < 3652059) : (ofDayNumber n).isWellFormed = true := by
  rcases day_of_yearOf n with ⟨hyear, hrest⟩
  rcases day_of_monthOf hrest with ⟨hfirst, hlast, hmonth, hday⟩
  have hle := yearOf_le hn
  rw [isWellFormed_iff]
  exact ⟨hle, hfirst, hlast, Nat.le_add_left 1 _, hday⟩

end PuzzleContest.Date
