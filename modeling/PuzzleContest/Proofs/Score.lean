import PuzzleContest.Contest.Submission

/-!
# Scores that doubles can hold

Only an index far beyond those that can be stored earns a score that is too large for a double.  So
an answer to a try in the store is never turned down for its score.

Main results:

- `Binary64.roundUnits_le`: rounding at most doubles a number of units.
- `Binary64.ofInt?_isSome`: integers well inside the range have a double.
- `Score.score?_isSome`: the score at an index that can be stored is never too large.
- `Try.answered?_isSome`: an answer to such a try counts.
-/

namespace PuzzleContest

namespace Binary64

/-! ## Rounding -/

theorem twoTo_add (m n : Nat) : twoTo (m + n) = twoTo m * twoTo n := Nat.pow_add 2 m n

theorem twoTo_le {m n : Nat} (h : m ≤ n) : twoTo m ≤ twoTo n :=
  Nat.pow_le_pow_right (by omega) h

theorem twoTo_pos (n : Nat) : 0 < twoTo n := Nat.two_pow_pos n

theorem nearest_le (num den : Nat) : nearest num den ≤ num / den + 1 := by
  unfold nearest
  dsimp only
  split
  · omega
  · split
    · omega
    · split <;> omega

/-- The low bits below the leading ones weigh less than the number. -/
theorem twoTo_spareBits_le {q : Nat} (hq : q ≠ 0) : twoTo (spareBits q) ≤ q := by
  have hlog : twoTo q.log2 ≤ q := Nat.log2_self_le hq
  have hmono : twoTo (q.log2 - 52) ≤ twoTo q.log2 := twoTo_le (Nat.sub_le _ _)
  exact Nat.le_trans hmono hlog

/-- Rounding at most doubles a number of units. -/
theorem roundUnits_le (n : Nat) : roundUnits n 1 ≤ 2 * n := by
  by_cases hn : n = 0
  · subst hn
    decide
  · have hgrain := twoTo_spareBits_le hn
    simp only [roundUnits, Nat.div_one, Nat.one_mul]
    have hnearest := nearest_le n (twoTo (spareBits n))
    calc nearest n (twoTo (spareBits n)) * twoTo (spareBits n)
        ≤ (n / twoTo (spareBits n) + 1) * twoTo (spareBits n) := Nat.mul_le_mul_right _ hnearest
      _ = n / twoTo (spareBits n) * twoTo (spareBits n) + twoTo (spareBits n) := Nat.succ_mul _ _
      _ ≤ n + n := Nat.add_le_add (Nat.div_mul_le_self _ _) hgrain
      _ = 2 * n := by omega

theorem roundUnits_mul_lt {n bound unit : Nat} (h : 2 * n < bound) (hunit : 0 < unit) :
    roundUnits (n * unit) 1 < bound * unit := by
  calc roundUnits (n * unit) 1
      ≤ 2 * (n * unit) := roundUnits_le _
    _ = 2 * n * unit := (Nat.mul_assoc _ _ _).symm
    _ < bound * unit := Nat.mul_lt_mul_of_pos_right h hunit

theorem roundUnits_lt_limit {n m : Nat} (hm : m + 1074 = 2098) (h : 2 * n < twoTo m) :
    roundUnits (n * one) 1 < limit := by
  -- The exponent is a variable, so that no power of this size is evaluated.
  have hlt : roundUnits (n * one) 1 < twoTo m * one := roundUnits_mul_lt h (twoTo_pos 1074)
  have hlimit : twoTo m * one = twoTo (m + 1074) := (twoTo_add m 1074).symm
  rw [hlimit, hm] at hlt
  exact hlt

theorem ofUnits_of_lt {units : Nat} (negative : Bool) (h : units < limit) :
    ofUnits negative units = .finite negative units := if_pos h

theorem ofInt_apply (n : Int) : ofInt n = ofUnits (n < 0) (roundUnits (n.natAbs * one) 1) := rfl

/-- Integers well inside the range have a double. -/
theorem ofInt?_isSome {n : Int} {m : Nat} (hm : m + 1074 = 2098) (h : 2 * n.natAbs < twoTo m) :
    (ofInt? n).isSome = true := by
  have hunits := roundUnits_lt_limit hm h
  rw [ofInt?, ofInt_apply, ofUnits_of_lt _ hunits]
  rfl

end Binary64

/-! ## The parts of a score -/

namespace Score

theorem baseScore_bounds (level : String) (step : Int) :
    0 ≤ baseScore level step ∧ baseScore level step ≤ 135 := by
  unfold baseScore
  cases Level.ofName? level with
  | none => simp
  | some l =>
    have hbase : (0 ≤ (baseOf l).1 ∧ (baseOf l).1 ≤ 135) ∧ 0 ≤ (baseOf l).2 ∧ (baseOf l).2 ≤ 135 := by
      cases l <;> decide
    dsimp only
    split
    · exact hbase.1
    · split
      · exact hbase.2
      · decide

theorem timePoints_bounds (level : String) (minutes : Int) :
    -5 ≤ timePoints level minutes ∧ timePoints level minutes ≤ 75 := by
  unfold timePoints
  cases Level.ofName? level with
  | none => simp
  | some l =>
    cases l <;> simp only [bands, bandPoints] <;> split <;> (try split) <;> (try split) <;> decide

theorem attemptsMalus_bounds (attempts : Int) :
    -10 ≤ attemptsMalus attempts ∧ attemptsMalus attempts ≤ 0 := by
  unfold attemptsMalus
  split
  · decide
  · split
    · decide
    · split <;> decide

/-- The factor of an index that can be stored is far from the range of doubles. -/
theorem indexMultiplier_natAbs_le {index : Int} (h : Store.holds index = true) :
    (indexMultiplier index).natAbs ≤ Binary64.twoTo 63 := by
  have hbounds : -9223372036854775808 ≤ index ∧ index < 9223372036854775808 :=
    of_decide_eq_true h
  have hbound : Binary64.twoTo 63 = 9223372036854775808 := rfl
  rw [indexMultiplier, Int.fdiv_eq_ediv_of_nonneg index (by decide), hbound]
  omega

/-- The score at an index that can be stored is never too large. -/
theorem score?_isSome {index : Int} (h : Store.holds index = true) (level : String) (step : Int)
    (start finish : Moment) (attempts : Int) :
    (score? level index step start finish attempts).isSome = true := by
  apply Binary64.ofInt?_isSome (show 1024 + 1074 = 2098 from rfl)
  have hbase := baseScore_bounds level step
  have htime := timePoints_bounds level (elapsedMinutes start finish)
  have hmalus := attemptsMalus_bounds attempts
  have hfactor := indexMultiplier_natAbs_le h
  have hpoints : (baseScore level step + timePoints level (elapsedMinutes start finish) +
      attemptsMalus attempts).natAbs ≤ 210 := by omega
  have htotal : (total level index step start finish attempts).natAbs ≤ 210 * Binary64.twoTo 63 := by
    rw [total, Int.natAbs_mul]
    exact Nat.mul_le_mul hpoints hfactor
  have hrange : Binary64.twoTo 72 ≤ Binary64.twoTo 1024 := Binary64.twoTo_le (by omega)
  have hsmall : 2 * (210 * Binary64.twoTo 63) < Binary64.twoTo 72 := by decide
  omega

end Score

/-- An answer to a try at an index that can be stored counts. -/
theorem Try.answered?_isSome {ι : Type} {t : Try ι} (h : Store.holds t.key.index = true)
    (now : Moment) (answer : String) (correct : Bool) :
    (t.answered? now answer correct).isSome = true := by
  unfold answered?
  cases correct with
  | false => rfl
  | true =>
    simp only [if_true, Option.isSome_map]
    exact Score.score?_isSome h _ _ _ _ _

end PuzzleContest
