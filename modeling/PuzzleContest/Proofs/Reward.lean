import PuzzleContest.Proofs.Minutes

/-!
# What scores reward

More time and more attempts never earn more, whatever the level is called.  At the three levels that
earn points neither the second step, nor a higher level, nor a later puzzle earns less, and every score
lies between zero and the most that its index allows.  All this holds of whole numbers, before they are
rounded to doubles, and rounding keeps their order.

Main definitions:

- `Binary64.le`: the order of doubles.
- `Score.Falls`: time bands whose points fall.
- `Score.points`: what is earned before the factor of the index.

Main results:

- `Binary64.ofInt_mono`: integers in order have doubles in order.
- `Score.bandPoints_anti`: where points fall, more time does not earn more.
- `Score.rewards`: how scores compare.
-/

namespace PuzzleContest

/-! ## The order of doubles -/

namespace Binary64

/-- Whether one double is at most another; never with a value that is not a number. -/
def le : Binary64 → Binary64 → Bool
  | .finite s m, .finite t n => signedUnits s m ≤ signedUnits t n
  | .finite _ _, .infinite t => !t
  | .infinite s, .finite _ _ => s
  | .infinite s, .infinite t => s || !t
  | _, _ => false

/-- Of doubles that are finite, one is at most another exactly if the other is not below it. -/
theorem le_iff_not_lt {x y : Binary64} (hx : x.isFinite = true) (hy : y.isFinite = true) :
    x.le y = true ↔ y.lt x = false := by
  cases x <;> cases y <;> simp [isFinite, le, lt] at hx hy ⊢

theorem limit_pos : 0 < limit := twoTo_pos 2098

theorem signedUnits_bounds (s : Bool) (u : Nat) :
    -(u : Int) ≤ signedUnits s u ∧ signedUnits s u ≤ u := by
  unfold signedUnits
  split <;> omega

/-- Numbers of units in order are doubles in order, also where they become infinite. -/
theorem ofUnits_le {s t : Bool} {u v : Nat} (h : signedUnits s u ≤ signedUnits t v) :
    (ofUnits s u).le (ofUnits t v) = true := by
  have hlimit := limit_pos
  have hu := signedUnits_bounds s u
  have hv := signedUnits_bounds t v
  unfold ofUnits
  by_cases hsmall : u < limit
  · by_cases hsmall' : v < limit
    · rw [if_pos hsmall, if_pos hsmall']
      exact decide_eq_true h
    · rw [if_pos hsmall, if_neg hsmall']
      cases t with
      | false => rfl
      | true =>
        simp only [signedUnits, if_true] at h hu hv
        omega
  · by_cases hsmall' : v < limit
    · rw [if_neg hsmall, if_pos hsmall']
      cases s with
      | true => rfl
      | false =>
        simp only [signedUnits, Bool.false_eq_true, if_false] at h hu hv
        omega
    · rw [if_neg hsmall, if_neg hsmall']
      cases s with
      | true => rfl
      | false =>
        cases t with
        | false => rfl
        | true =>
          simp only [signedUnits, Bool.false_eq_true, if_false, if_true] at h
          omega

/-- A sign in front keeps the order of magnitudes on one side of zero, and turns it on the other. -/
theorem signedUnits_mono {f : Nat → Nat} (hf : ∀ {a b : Nat}, a ≤ b → f a ≤ f b) {m n : Int}
    (h : m ≤ n) : signedUnits (m < 0) (f m.natAbs) ≤ signedUnits (n < 0) (f n.natAbs) := by
  by_cases hm : m < 0
  · by_cases hn : n < 0
    · have hunits := hf (show n.natAbs ≤ m.natAbs by omega)
      simp only [signedUnits, hm, hn, decide_true, if_true]
      omega
    · simp only [signedUnits, hm, hn, decide_true, decide_false, Bool.false_eq_true, if_true, if_false]
      omega
  · have hn : ¬n < 0 := by omega
    have hunits := hf (show m.natAbs ≤ n.natAbs by omega)
    simp only [signedUnits, hm, hn, decide_false, Bool.false_eq_true, if_false]
    omega

/-- Integers in order have doubles in order. -/
theorem ofInt_mono {m n : Int} (h : m ≤ n) : (ofInt m).le (ofInt n) = true := by
  have hround : ∀ {a b : Nat}, a ≤ b → roundUnits (a * one) 1 ≤ roundUnits (b * one) 1 :=
    fun hab => roundUnits_mono (Nat.mul_le_mul_right one hab) 1
  rw [ofInt_apply, ofInt_apply]
  exact ofUnits_le (signedUnits_mono hround h)

theorem eq_of_finite? {x y : Binary64} (h : x.finite? = some y) : y = x := by
  cases x with
  | finite negative units => exact (Option.some.inj h).symm
  | infinite negative => exact absurd h (by simp [finite?])
  | nan => exact absurd h (by simp [finite?])

theorem eq_ofInt_of_ofInt? {n : Int} {x : Binary64} (h : ofInt? n = some x) : x = ofInt n :=
  eq_of_finite? h

end Binary64

/-! ## Levels in order -/

namespace Level

/-- The name of a level. -/
def name : Level → String
  | .easy => "EASY"
  | .medium => "MEDIUM"
  | .hard => "HARD"

/-- How hard a level is beside the others. -/
def rank : Level → Nat
  | .easy => 0
  | .medium => 1
  | .hard => 2

@[simp] theorem ofName?_name (l : Level) : ofName? l.name = some l := by
  cases l <;> rfl

end Level

namespace Score

open Binary64

/-! ## The parts of a score -/

/-- The points of time bands fall from each band to all later ones, and to those past the last. -/
def Falls : List (Int × Int) → Int → Prop
  | [], _ => True
  | (_, points) :: rest, past => (∀ band ∈ rest, band.2 ≤ points) ∧ past ≤ points ∧ Falls rest past

theorem bandPoints_le {bands : List (Int × Int)} {past most : Int}
    (hbands : ∀ band ∈ bands, band.2 ≤ most) (hpast : past ≤ most) (minutes : Int) :
    bandPoints minutes bands past ≤ most := by
  induction bands with
  | nil => exact hpast
  | cons band rest ih =>
    unfold bandPoints
    split
    · exact hbands band List.mem_cons_self
    · exact ih fun b hb => hbands b (List.mem_cons_of_mem _ hb)

/-- Where points fall, more time does not earn more. -/
theorem bandPoints_anti {bands : List (Int × Int)} {past minutes more : Int}
    (hfalls : Falls bands past) (h : minutes ≤ more) :
    bandPoints more bands past ≤ bandPoints minutes bands past := by
  induction bands with
  | nil => exact Int.le_refl _
  | cons band rest ih =>
    rcases hfalls with ⟨hrest, hpast, hfalls⟩
    simp only [bandPoints]
    by_cases hmore : more < band.1
    · have hless : minutes < band.1 := Int.lt_of_le_of_lt h hmore
      exact Int.le_of_eq (by rw [if_pos hmore, if_pos hless])
    · rw [if_neg hmore]
      split
      · exact bandPoints_le hrest hpast more
      · exact ih hfalls

theorem falls_bands (l : Level) : Falls (bands l).1 (bands l).2 := by
  cases l <;> simp [Falls, bands]

theorem timePoints_anti {minutes more : Int} (h : minutes ≤ more) (level : String) :
    timePoints level more ≤ timePoints level minutes := by
  unfold timePoints
  cases Level.ofName? level with
  | none => exact Int.le_refl _
  | some l => exact bandPoints_anti (falls_bands l) h

theorem attemptsMalus_anti {attempts more : Int} (h : attempts ≤ more) :
    attemptsMalus more ≤ attemptsMalus attempts := by
  unfold attemptsMalus
  omega

theorem indexMultiplier_eq (index : Int) : indexMultiplier index = 1 + index / 100 := by
  rw [indexMultiplier, Int.fdiv_eq_ediv_of_nonneg index (by decide)]

theorem baseScore_name (l : Level) {step : Int} (hstep : step = 1 ∨ step = 2) :
    baseScore l.name step = if step = 1 then (baseOf l).1 else (baseOf l).2 := by
  rcases hstep with rfl | rfl <;> simp [baseScore]

theorem timePoints_name (l : Level) (minutes : Int) :
    timePoints l.name minutes = bandPoints minutes (bands l).1 (bands l).2 := by
  simp [timePoints]

/-- At every time a higher level has no fewer points. -/
theorem bandPoints_bands_mono {l l' : Level} (h : l.rank ≤ l'.rank) (minutes : Int) :
    bandPoints minutes (bands l).1 (bands l).2 ≤ bandPoints minutes (bands l').1 (bands l').2 := by
  cases l <;> cases l' <;> simp only [Level.rank] at h <;> simp only [bands, bandPoints] <;>
    omega

theorem baseOf_mono {l l' : Level} (h : l.rank ≤ l'.rank) :
    (baseOf l).1 ≤ (baseOf l').1 ∧ (baseOf l).2 ≤ (baseOf l').2 := by
  cases l <;> cases l' <;> simp [Level.rank, baseOf] at h ⊢

theorem baseOf_le (l : Level) : (baseOf l).1 ≤ (baseOf l).2 := by
  cases l <;> decide

/-! ## Points -/

/-- What is earned before the factor of the index. -/
def points (level : String) (step minutes attempts : Int) : Int :=
  baseScore level step + timePoints level minutes + attemptsMalus attempts

theorem total_eq (level : String) (index step : Int) (start finish : Moment) (attempts : Int) :
    total level index step start finish attempts =
      points level step (elapsedMinutes start finish) attempts * indexMultiplier index := rfl

variable {level : String} {index step minutes more attempts : Int} {l l' : Level}

theorem points_anti {many : Int} (hminutes : minutes ≤ more) (hattempts : attempts ≤ many) :
    points level step more many ≤ points level step minutes attempts := by
  have htime := timePoints_anti hminutes level
  have hmalus := attemptsMalus_anti hattempts
  unfold points
  omega

/-- The malus never exceeds the least that a step at a level earns. -/
theorem points_bounds (l : Level) (hstep : step = 1 ∨ step = 2) (minutes attempts : Int) :
    0 ≤ points l.name step minutes attempts ∧ points l.name step minutes attempts ≤ 210 := by
  have hbase := baseScore_bounds l.name step
  have htime := timePoints_bounds l.name minutes
  have hmalus := attemptsMalus_bounds attempts
  have hleast : 15 ≤ baseScore l.name step := by
    rw [baseScore_name l hstep]
    cases l <;> simp only [baseOf] <;> split <;> omega
  unfold points
  omega

theorem points_second_step (l : Level) (minutes attempts : Int) :
    points l.name 1 minutes attempts ≤ points l.name 2 minutes attempts := by
  have hbase := baseOf_le l
  unfold points
  rw [baseScore_name l (.inl rfl), baseScore_name l (.inr rfl), if_pos rfl, if_neg (by decide)]
  omega

theorem points_higher_level (h : l.rank ≤ l'.rank) (hstep : step = 1 ∨ step = 2)
    (minutes attempts : Int) :
    points l.name step minutes attempts ≤ points l'.name step minutes attempts := by
  have hbase := baseOf_mono h
  have htime := bandPoints_bands_mono h minutes
  unfold points
  rw [baseScore_name l hstep, baseScore_name l' hstep, timePoints_name, timePoints_name]
  split <;> omega

theorem indexMultiplier_pos (hindex : 0 ≤ index) : 1 ≤ indexMultiplier index := by
  rw [indexMultiplier_eq]
  omega

theorem indexMultiplier_mono {later : Int} (h : index ≤ later) :
    indexMultiplier index ≤ indexMultiplier later := by
  rw [indexMultiplier_eq, indexMultiplier_eq]
  omega

/-! ## Scores -/

variable {start finish : Moment} {x y : Binary64}

/-- Scores compare as their points do, at one index. -/
theorem le_of_points_le {level' : String} {step' attempts' : Int} {finish' : Moment}
    (hindex : 0 ≤ index) (hx : score? level index step start finish attempts = some x)
    (hy : score? level' index step' start finish' attempts' = some y)
    (h : points level step (elapsedMinutes start finish) attempts ≤
      points level' step' (elapsedMinutes start finish') attempts') : x.le y = true := by
  rw [eq_ofInt_of_ofInt? hx, eq_ofInt_of_ofInt? hy, total_eq, total_eq]
  have hpos := indexMultiplier_pos hindex
  exact ofInt_mono (Int.mul_le_mul_of_nonneg_right h (by omega))

/-- How a score at one of the three levels compares with others, all else equal. -/
structure Rewards (l : Level) (index step : Int) (start finish : Moment) (attempts : Int)
    (x : Binary64) : Prop where
  nonneg : (ofInt 0).le x = true
  /-- It is at most the double nearest to the most that the index allows. -/
  most : x.le (ofInt (210 * (1 + index / 100))) = true
  later_puzzle : ∀ later y, index ≤ later →
    score? l.name later step start finish attempts = some y → x.le y = true
  second_step : ∀ y, step = 1 →
    score? l.name index 2 start finish attempts = some y → x.le y = true
  higher_level : ∀ (l' : Level) y, l.rank ≤ l'.rank →
    score? l'.name index step start finish attempts = some y → x.le y = true

/-- A score that doubles can hold is at least each other one that is earned later or with more attempts,
and at the three levels it compares with others as it should. -/
theorem rewards (hindex : 0 ≤ index)
    (hx : score? level index step start finish attempts = some x) :
    (∀ (later : Moment) (many : Int) (y : Binary64), finish.instant ≤ later.instant →
      attempts ≤ many → score? level index step start later many = some y → y.le x = true) ∧
    ∀ l : Level, level = l.name → step = 1 ∨ step = 2 →
      Rewards l index step start finish attempts x := by
  constructor
  · intro later many y hfinish hattempts hy
    have hminutes := elapsedMinutes_mono (Int.le_refl start.instant) hfinish
    exact le_of_points_le hindex hy hx (points_anti hminutes hattempts)
  · rintro l rfl hstep
    have hbounds := points_bounds l hstep (elapsedMinutes start finish) attempts
    have hfactor := indexMultiplier_pos hindex
    have hvalue := eq_ofInt_of_ofInt? hx
    rw [total_eq] at hvalue
    refine ⟨?_, ?_, ?_, ?_, ?_⟩
    · rw [hvalue]
      exact ofInt_mono (Int.mul_nonneg hbounds.1 (by omega))
    · rw [hvalue, ← indexMultiplier_eq]
      exact ofInt_mono (Int.mul_le_mul_of_nonneg_right hbounds.2 (by omega))
    · intro later y hlater hy
      rw [hvalue, eq_ofInt_of_ofInt? hy, total_eq]
      exact ofInt_mono (Int.mul_le_mul_of_nonneg_left (indexMultiplier_mono hlater) hbounds.1)
    · rintro y rfl hy
      exact le_of_points_le hindex hx hy (points_second_step l _ _)
    · intro l' y hrank hy
      exact le_of_points_le hindex hx hy (points_higher_level hrank hstep _ _)

/-- The last second in which a first step of medium level still earns all points for its time, on a clock
that is an hour ahead, beside an answer that comes when there are none left, and one attempt later. -/
theorem rewards_sample :
    let start : Moment := ⟨0, none⟩
    let finish : Moment := ⟨4799999999, some 3600⟩
    let later : Moment := ⟨2400000000, none⟩
    score? "MEDIUM" 150 1 start finish 3 = some (ofInt 110) ∧
      score? "MEDIUM" 150 1 start later 4 = some (ofInt 56) ∧
      finish.instant ≤ later.instant ∧ (ofInt 56).le (ofInt 110) = true ∧
      Rewards .medium 150 1 start finish 3 (ofInt 110) := by
  intro start finish later
  have hfast : score? "MEDIUM" 150 1 start finish 3 = some (ofInt 110) := by decide +kernel
  have hslow : score? "MEDIUM" 150 1 start later 4 = some (ofInt 56) := by decide +kernel
  have horder : finish.instant ≤ later.instant := by decide
  rcases rewards (by decide) hfast with ⟨hless, hcompare⟩
  exact ⟨hfast, hslow, horder, hless later 4 (ofInt 56) horder (by decide) hslow,
    hcompare .medium rfl (.inl rfl)⟩

end Score

end PuzzleContest
