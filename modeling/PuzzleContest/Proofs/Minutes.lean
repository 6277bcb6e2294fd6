import PuzzleContest.Proofs.Rounding

/-!
# Seconds as doubles, and whole minutes

The time between two moments is told in seconds, as the nearest double, before it is cut to whole minutes
or seconds.  Rounding does not pass a whole second that a double can tell, so that cutting afterwards
gives what cutting before would give, or one more.  Below `2 ^ 34` seconds doubles lie less than two
microseconds apart; there the last microsecond before a whole second is not rounded to it, and cutting is
exact.

Main definitions:

- `Moment.OnCalendar`: the readings that there are.

Main results:

- `Score.secondUnits_div_of_lt`: multiples of a second are counted exactly below `2 ^ 34` seconds.
- `Score.secondUnits_div_cases`: beyond, there may be one more.
- `Score.elapsed_exact`: whole minutes between moments, for all moments.
-/

namespace PuzzleContest

/-! ## Half a step -/

namespace Binary64

/-- Rounding goes up by half a step at most. -/
theorem two_mul_nearest_le (num den : Nat) : 2 * (nearest num den * den) ≤ 2 * num + den := by
  have hdiv := Nat.div_add_mod' num den
  by_cases hup : nearest num den = num / den + 1
  · have hhalf := nearest_eq_succ_iff.1 hup
    rw [hup, Nat.add_one_mul (num / den) den]
    omega
  · have hsame : nearest num den = num / den := by
      have hupper := nearest_le num den
      have hlower := le_nearest num den
      omega
    rw [hsame]
    omega

/-- What lies more than half a step below a whole number is not rounded to it. -/
theorem nearest_lt {num den bound : Nat} (h : 2 * num + den < 2 * (bound * den)) :
    nearest num den < bound := by
  have hstep := two_mul_nearest_le num den
  refine Nat.lt_of_mul_lt_mul_right (?_ : nearest num den * den < bound * den)
  omega

/-- Nor is rounding up to pass a whole number. -/
theorem nearest_le_of_le {num den bound : Nat} (hden : 0 < den) (h : num ≤ bound * den) :
    nearest num den ≤ bound := by
  calc nearest num den
      ≤ nearest (bound * den) den := nearest_mono h den
    _ = bound * den / den := nearest_of_dvd (Nat.dvd_mul_left den bound)
    _ = bound := Nat.mul_div_cancel bound hden

end Binary64

namespace Score

open Binary64

/-! ## Seconds -/

variable {micros bound : Nat}

/-- The steps to which a number of seconds is rounded. -/
def grain (micros : Nat) : Nat := twoTo (spareBits (micros * one / 1000000))

theorem grain_pos (micros : Nat) : 0 < grain micros := twoTo_pos _

theorem secondUnits_eq (micros : Nat) : secondUnits micros =
    nearest (micros * one) (1000000 * grain micros) * grain micros := rfl

/-- A second is a whole number of steps, the more of them the fewer seconds there are. -/
theorem exists_one_eq_mul_grain {n : Nat} (h : micros < twoTo n * 1000000) (hn : n ≤ 53) :
    ∃ parts, one = parts * grain micros ∧ twoTo (53 - n) ≤ parts := by
  have hquot : micros * one / 1000000 < twoTo (n + 1074) := by
    rw [← twoTo_mul_one, Nat.div_lt_iff_lt_mul (by decide), Nat.mul_right_comm]
    exact Nat.mul_lt_mul_of_pos_right h Binary64.one_pos
  have hspare : spareBits (micros * one / 1000000) + 53 ≤ n + 1074 := by
    unfold spareBits
    by_cases hzero : micros * one / 1000000 = 0
    · rw [hzero, Nat.log2_zero]
      omega
    · have hlog := log2_lt_of_lt hzero hquot
      omega
  refine ⟨twoTo (1074 - spareBits (micros * one / 1000000)), ?_, twoTo_le (by omega)⟩
  rw [grain, ← twoTo_add, Nat.sub_add_cancel (by omega)]
  rfl

/-- Less than `2 ^ 34` seconds are not rounded to a whole second above. -/
theorem secondUnits_lt (hbound : micros < bound * 1000000) (h : micros < twoTo 34 * 1000000) :
    secondUnits micros < bound * one := by
  obtain ⟨parts, hone, hparts⟩ := exists_one_eq_mul_grain h (by decide)
  have hnear : nearest (micros * one) (1000000 * grain micros) < bound * parts := by
    apply nearest_lt
    rw [Nat.mul_mul_mul_comm, ← hone]
    -- Half a step is less than a microsecond.
    have hstep : 524288 * grain micros ≤ one := hone ▸ Nat.mul_le_mul_right _ hparts
    have hgrain := grain_pos micros
    have hmicro : micros * one + one ≤ bound * 1000000 * one := by
      rw [← Nat.add_one_mul]
      exact Nat.mul_le_mul_right one hbound
    omega
  calc secondUnits micros
      = nearest (micros * one) (1000000 * grain micros) * grain micros := secondUnits_eq micros
    _ < bound * parts * grain micros := Nat.mul_lt_mul_of_pos_right hnear (grain_pos micros)
    _ = bound * one := by rw [hone, Nat.mul_assoc]

/-- A whole second below is not passed. -/
theorem le_secondUnits (hbound : bound * 1000000 ≤ micros) (h : micros < twoTo 53 * 1000000) :
    bound * one ≤ secondUnits micros := by
  obtain ⟨parts, hone, -⟩ := exists_one_eq_mul_grain h (by decide)
  have hnear : bound * parts ≤ nearest (micros * one) (1000000 * grain micros) := by
    refine Nat.le_trans ?_ (le_nearest _ _)
    rw [Nat.le_div_iff_mul_le (Nat.mul_pos (by decide) (grain_pos micros)),
      Nat.mul_mul_mul_comm, ← hone]
    exact Nat.mul_le_mul_right one hbound
  calc bound * one
      = bound * parts * grain micros := by rw [hone, Nat.mul_assoc]
    _ ≤ nearest (micros * one) (1000000 * grain micros) * grain micros :=
      Nat.mul_le_mul_right _ hnear
    _ = secondUnits micros := (secondUnits_eq micros).symm

/-- Nor is a whole second above. -/
theorem secondUnits_le (hbound : micros ≤ bound * 1000000) (h : micros < twoTo 53 * 1000000) :
    secondUnits micros ≤ bound * one := by
  obtain ⟨parts, hone, -⟩ := exists_one_eq_mul_grain h (by decide)
  have hnear : nearest (micros * one) (1000000 * grain micros) ≤ bound * parts := by
    refine nearest_le_of_le (Nat.mul_pos (by decide) (grain_pos micros)) ?_
    rw [Nat.mul_mul_mul_comm, ← hone]
    exact Nat.mul_le_mul_right one hbound
  calc secondUnits micros
      = nearest (micros * one) (1000000 * grain micros) * grain micros := secondUnits_eq micros
    _ ≤ bound * parts * grain micros := Nat.mul_le_mul_right _ hnear
    _ = bound * one := by rw [hone, Nat.mul_assoc]

theorem secondUnits_zero : secondUnits 0 = 0 := by
  have hzero : secondUnits 0 ≤ 0 * one :=
    secondUnits_le (Nat.le_refl _) (Nat.mul_pos (twoTo_pos 53) (by decide))
  rwa [Nat.zero_mul, Nat.le_zero] at hzero

/-! ## Multiples of a second -/

variable {k : Nat}

/-- Rounding loses no whole multiple of a second. -/
theorem div_le_secondUnits_div (hk : 0 < k) (h : micros < twoTo 53 * 1000000) :
    micros / (k * 1000000) ≤ secondUnits micros / (k * one) := by
  rw [Nat.le_div_iff_mul_le (Nat.mul_pos hk Binary64.one_pos), ← Nat.mul_assoc]
  refine le_secondUnits ?_ h
  rw [Nat.mul_assoc]
  exact Nat.div_mul_le_self micros (k * 1000000)

theorem lt_div_add_one_mul (hk : 0 < k) (micros : Nat) :
    micros < (micros / (k * 1000000) + 1) * k * 1000000 := by
  rw [Nat.mul_assoc, ← Nat.div_lt_iff_lt_mul (Nat.mul_pos hk (by decide))]
  exact Nat.lt_succ_self _

/-- Below `2 ^ 34` seconds multiples of a second are counted exactly. -/
theorem secondUnits_div_of_lt (hk : 0 < k) (h : micros < twoTo 34 * 1000000) :
    secondUnits micros / (k * one) = micros / (k * 1000000) := by
  have hrange : twoTo 34 * 1000000 ≤ twoTo 53 * 1000000 :=
    Nat.mul_le_mul_right _ (twoTo_le (by decide))
  have hlower := div_le_secondUnits_div hk (Nat.lt_of_lt_of_le h hrange)
  have hupper : secondUnits micros / (k * one) < micros / (k * 1000000) + 1 := by
    rw [Nat.div_lt_iff_lt_mul (Nat.mul_pos hk Binary64.one_pos), ← Nat.mul_assoc]
    exact secondUnits_lt (lt_div_add_one_mul hk micros) h
  omega

/-- Beyond, they are counted exactly, or there is one more. -/
theorem secondUnits_div_cases (hk : 0 < k) (h : micros < twoTo 53 * 1000000) :
    secondUnits micros / (k * one) = micros / (k * 1000000) ∨
      secondUnits micros / (k * one) = micros / (k * 1000000) + 1 := by
  have hlower := div_le_secondUnits_div hk h
  have hupper : secondUnits micros / (k * one) ≤ micros / (k * 1000000) + 1 := by
    refine Nat.div_le_of_le_mul ?_
    rw [Nat.mul_comm, ← Nat.mul_assoc]
    exact secondUnits_le (Nat.le_of_lt (lt_div_add_one_mul hk micros)) h
  omega

end Score

/-! ## Whole minutes -/

/-- The readings that there are: in the years 1 to 9999, on clocks less than a day away from universal
time. -/
structure Moment.OnCalendar (m : Moment) : Prop where
  isPossible : m.isPossible = true
  offset_lt : ∀ o, m.offset = some o → o.natAbs < 86400

instance (m : Moment) : Decidable m.OnCalendar :=
  decidable_of_iff (m.isPossible = true ∧ ∀ o ∈ m.offset, o.natAbs < 86400)
    ⟨fun h => ⟨h.1, h.2⟩, fun h => ⟨h.1, h.2⟩⟩

/-- All moments lie within the calendar and a day around it. -/
theorem Moment.OnCalendar.instant_bounds {m : Moment} (h : m.OnCalendar) :
    -Moment.day < m.instant ∧ m.instant < Moment.wallLimit + Moment.day := by
  have hwall : 0 ≤ m.wall ∧ m.wall < Moment.wallLimit := by
    simpa [Moment.isPossible] using h.isPossible
  have hoffset : (m.offset.getD 0).natAbs < 86400 := by
    cases ho : m.offset with
    | none => decide
    | some o => exact h.offset_lt o ho
  simp only [Moment.instant, Moment.day, Moment.second] at *
  omega

/-- They lie less than `2 ^ 53` seconds apart. -/
theorem Moment.OnCalendar.since_lt {earlier later : Moment} (hearlier : earlier.OnCalendar)
    (hlater : later.OnCalendar) : later.since earlier < Binary64.twoTo 53 * Moment.second := by
  have hfrom := hearlier.instant_bounds
  have hto := hlater.instant_bounds
  have hpower : Binary64.twoTo 53 = 9007199254740992 := rfl
  rw [hpower]
  simp only [Moment.since, Moment.wallLimit, Moment.day, Moment.second] at *
  omega

namespace Score

open Binary64

variable {start finish earlier later : Moment}

theorem elapsedMinutes_of_nonpos (h : finish.since start ≤ 0) : elapsedMinutes start finish = 0 :=
  if_pos h

theorem elapsedMinutes_of_nonneg (h : 0 ≤ finish.since start) : elapsedMinutes start finish =
    (secondUnits (finish.since start).toNat / (60 * one) : Nat) := by
  by_cases hzero : finish.since start ≤ 0
  · have hsame : finish.since start = 0 := Int.le_antisymm hzero h
    rw [elapsedMinutes_of_nonpos hzero, hsame, Int.toNat_zero, secondUnits_zero, Nat.zero_div]
    rfl
  · exact if_neg hzero

theorem elapsedMinutes_nonneg (start finish : Moment) : 0 ≤ elapsedMinutes start finish := by
  unfold elapsedMinutes
  dsimp only
  split
  · exact Int.le_refl 0
  · exact Int.natCast_nonneg _

/-- Whole minutes grow when the end moves later or the start earlier. -/
theorem elapsedMinutes_mono (hstart : earlier.instant ≤ start.instant)
    (hfinish : finish.instant ≤ later.instant) :
    elapsedMinutes start finish ≤ elapsedMinutes earlier later := by
  by_cases h : finish.since start ≤ 0
  · rw [elapsedMinutes_of_nonpos h]
    exact elapsedMinutes_nonneg earlier later
  · have hsince : finish.since start ≤ later.since earlier := by
      unfold Moment.since
      omega
    rw [elapsedMinutes_of_nonneg (by omega), elapsedMinutes_of_nonneg (by omega), Int.ofNat_le]
    have hmicros : (finish.since start).toNat ≤ (later.since earlier).toNat := by omega
    exact Nat.div_le_div_right (roundUnits_mono (Nat.mul_le_mul_right one hmicros) 1000000)

theorem toNat_lt_of_lt {n : Nat} {d : Int} (h : d < twoTo n * Moment.second) :
    d.toNat < twoTo n * 1000000 := by
  have hcast : ((twoTo n * 1000000 : Nat) : Int) = twoTo n * Moment.second := by
    simp [twoTo, Moment.second]
  have hpos : 0 < twoTo n * 1000000 := Nat.mul_pos (twoTo_pos n) (by decide)
  omega

/-- Whole minutes between moments: none backwards, exact below `2 ^ 34` seconds, at most one too many
beyond, and never fewer for a longer time. -/
theorem elapsed_exact (start finish : Moment) :
    (finish.since start ≤ 0 → elapsedMinutes start finish = 0) ∧
    (0 ≤ finish.since start → finish.since start < twoTo 34 * Moment.second →
      elapsedMinutes start finish = finish.since start / (60 * Moment.second)) ∧
    (start.OnCalendar → finish.OnCalendar → twoTo 34 * Moment.second ≤ finish.since start →
      elapsedMinutes start finish = finish.since start / (60 * Moment.second) ∨
        elapsedMinutes start finish = finish.since start / (60 * Moment.second) + 1) ∧
    ∀ earlier later : Moment, earlier.instant ≤ start.instant → finish.instant ≤ later.instant →
      elapsedMinutes start finish ≤ elapsedMinutes earlier later := by
  have hfloor : 0 ≤ finish.since start → ((finish.since start).toNat / (60 * 1000000) : Nat) =
      finish.since start / (60 * Moment.second) := by
    intro h
    simp only [Moment.second]
    omega
  refine ⟨elapsedMinutes_of_nonpos, fun hnonneg hlt => ?_, fun hstart hfinish hlong => ?_,
    fun earlier later => elapsedMinutes_mono⟩
  · rw [elapsedMinutes_of_nonneg hnonneg, ← hfloor hnonneg]
    exact congrArg Nat.cast (secondUnits_div_of_lt (by decide) (toNat_lt_of_lt hlt))
  · have hnonneg : 0 ≤ finish.since start :=
      Int.le_trans (Int.mul_nonneg (Int.natCast_nonneg _) (by decide)) hlong
    rw [elapsedMinutes_of_nonneg hnonneg, ← hfloor hnonneg]
    have hcases := secondUnits_div_cases (show 0 < 60 by decide)
      (toNat_lt_of_lt (hstart.since_lt hfinish))
    omega

/-- From a clock of unknown distance to one that is an hour ahead: the last microsecond of a minute soon
after the start, and the last one of a minute that is not over after `2 ^ 34` seconds. -/
theorem elapsed_exact_sample :
    let start : Moment := ⟨0, none⟩
    let soon : Moment := ⟨4319999999, some 3600⟩
    let late : Moment := ⟨17179872839999999, some 3600⟩
    (0 ≤ soon.since start ∧ soon.since start < twoTo 34 * Moment.second ∧
      elapsedMinutes start soon = 11) ∧
    (start.OnCalendar ∧ late.OnCalendar ∧ twoTo 34 * Moment.second ≤ late.since start ∧
      (elapsedMinutes start late = 286331153 ∨ elapsedMinutes start late = 286331154)) ∧
    (start.since soon ≤ 0 ∧ elapsedMinutes soon start = 0) ∧
    (soon.instant ≤ late.instant ∧ elapsedMinutes start soon ≤ elapsedMinutes start late) := by
  intro start soon late
  have hsoon : 0 ≤ soon.since start ∧ soon.since start < twoTo 34 * Moment.second := by decide
  have hlate : twoTo 34 * Moment.second ≤ late.since start := by decide
  have hstart : start.OnCalendar := by decide
  have hexists : late.OnCalendar := by decide
  have horder : soon.instant ≤ late.instant := by decide
  have hback : start.since soon ≤ 0 := by decide
  refine ⟨⟨hsoon.1, hsoon.2, ?_⟩, ⟨hstart, hexists, hlate, ?_⟩, ⟨hback, ?_⟩, ⟨horder, ?_⟩⟩
  · exact (elapsed_exact start soon).2.1 hsoon.1 hsoon.2
  · exact (elapsed_exact start late).2.2.1 hstart hexists hlate
  · exact (elapsed_exact soon start).1 hback
  · exact (elapsed_exact start soon).2.2.2 start late (Int.le_refl _) horder

/-- Beyond `2 ^ 34` seconds the last microsecond of a minute may count as the next one. -/
example : elapsedMinutes ⟨0, none⟩ ⟨17179869239999999, none⟩ = 17179869239999999 / 60000000 + 1 := by
  decide +kernel

end Score

end PuzzleContest
