import PuzzleContest.Proofs.Token

/-!
# What rounding keeps, and where it leaves the doubles

A number of units whose low bits are clear is not changed by rounding.  The integer part of a double is
such a number, so that it has a double of its own that is equal to it.  Rounding does not pass a power
of two, and so it keeps the order of quotients.  At the other end an integer has no double if and only
if it lies beyond the midpoint between the greatest double and the power of two above it.

Main results:

- `Binary64.roundUnits_of_dvd`: what is not changed by rounding.
- `Binary64.ofInt?_eq_of_truncate?`: the integer part of a double has an equal double.
- `Binary64.roundUnits_mono`: rounding keeps the order.
- `Binary64.roundUnits_lt_limit_iff`: what is rounded to a double.
- `Binary64.ofInt?_eq_none_iff`: the integers that have no double.
-/

namespace PuzzleContest.Binary64

theorem twoTo_succ (m : Nat) : twoTo (m + 1) = 2 * twoTo m := Nat.pow_succ'

theorem log2_lt_of_lt {u m : Nat} (hu : u ≠ 0) (h : u < twoTo m) : u.log2 < m :=
  (Nat.log2_lt hu).2 h

theorem twoTo_lt {m n : Nat} (h : m < n) : twoTo m < twoTo n := Nat.pow_lt_pow_right (by omega) h

/-! ## Exact values -/

theorem nearest_of_dvd {num den : Nat} (h : den ∣ num) : nearest num den = num / den := by
  unfold nearest
  rw [Nat.mod_eq_zero_of_dvd h]
  dsimp only
  split
  · rfl
  · split
    · omega
    · split
      · rfl
      · have hden : den = 0 := by omega
        subst hden
        omega

/-- A number of units whose low bits are clear is not changed by rounding. -/
theorem roundUnits_of_dvd {u : Nat} (h : twoTo (spareBits u) ∣ u) : roundUnits u 1 = u := by
  simp only [roundUnits, Nat.div_one, Nat.one_mul]
  rw [nearest_of_dvd h, Nat.div_mul_cancel h]

/-- Few ones above the units of a fraction are not changed by rounding. -/
theorem roundUnits_mul_one {n : Nat} (h : n < twoTo 53) : roundUnits (n * one) 1 = n * one := by
  refine roundUnits_of_dvd ?_
  by_cases hn : n = 0
  · simp [hn]
  · have hpos : n * one ≠ 0 := Nat.mul_ne_zero hn (Nat.ne_of_gt one_pos)
    have hlt : n * one < twoTo (53 + 1074) := by
      rw [← twoTo_mul_one]
      exact Nat.mul_lt_mul_of_pos_right h one_pos
    have hlog : (n * one).log2 < 53 + 1074 := log2_lt_of_lt hpos hlt
    have hspare : spareBits (n * one) ≤ 1074 := by
      unfold spareBits
      omega
    exact Nat.dvd_trans (twoTo_dvd hspare) (Nat.dvd_mul_left one n)

/-- The whole part of a double is not changed by rounding. -/
theorem roundUnits_whole {u : Nat} (h : roundUnits u 1 = u) :
    roundUnits (u / one * one) 1 = u / one * one := by
  by_cases hbits : spareBits u < 1074
  · exact roundUnits_mul_one (div_one_lt hbits)
  · have hone : one ∣ u := Nat.dvd_trans (twoTo_dvd (Nat.not_lt.1 hbits)) (dvd_of_roundUnits_eq h)
    rw [Nat.div_mul_cancel hone, h]

theorem toInt?_mul_one (negative : Bool) (n : Nat) :
    toInt? (.finite negative (n * one)) = some (signedUnits negative n) := by
  rw [toInt?, Nat.mul_mod_left, Nat.mul_div_cancel n one_pos, if_pos rfl]

theorem signedUnits_natAbs (n : Int) : signedUnits (decide (n < 0)) n.natAbs = n := by
  unfold signedUnits
  split
  · rename_i h
    have hneg : n < 0 := of_decide_eq_true h
    omega
  · rename_i h
    have hpos : ¬n < 0 := fun hn => h (decide_eq_true hn)
    omega

/-- The integer part of a double has a double that is equal to it. -/
theorem ofInt?_eq_of_truncate? {x : Binary64} (hx : x.IsDouble) {n : Int}
    (h : x.truncate? = some n) :
    ∃ whole : Binary64, ofInt? n = some whole ∧ whole.toInt? = some n ∧ whole.isFinite = true := by
  cases x with
  | infinite negative => simp [truncate?] at h
  | nan => simp [truncate?] at h
  | finite negative units =>
    simp only [truncate?, Option.some.injEq] at h
    have habs : n.natAbs = units / one := by rw [← h, natAbs_signedUnits]
    have hwhole : roundUnits (n.natAbs * one) 1 = n.natAbs * one := by
      rw [habs]
      exact roundUnits_whole hx.2
    have hlt : n.natAbs * one < limit := by
      rw [habs]
      exact Nat.lt_of_le_of_lt (Nat.div_mul_le_self _ _) hx.1
    refine ⟨.finite (n < 0) (n.natAbs * one), ?_, ?_, rfl⟩
    · rw [ofInt?_of_lt (hwhole.symm ▸ hlt), hwhole]
    · rw [toInt?_mul_one, signedUnits_natAbs]

/-! ## Order -/

theorem le_nearest (num den : Nat) : num / den ≤ nearest num den := by
  unfold nearest
  dsimp only
  split
  · exact Nat.le_refl _
  · split
    · exact Nat.le_succ _
    · split
      · exact Nat.le_refl _
      · exact Nat.le_succ _

theorem twoTo_eq_mul_grain {u m : Nat} (hm : u.log2 ≤ m) :
    twoTo m = twoTo (m - spareBits u) * twoTo (spareBits u) := by
  have hle : spareBits u ≤ m := Nat.le_trans (Nat.sub_le _ _) hm
  rw [← twoTo_add, Nat.sub_add_cancel hle]

/-- Rounding does not leave the power of two above. -/
theorem roundUnits_le_of_lt {num den m : Nat} (h : num < twoTo m * den)
    (hm : (num / den).log2 ≤ m) : roundUnits num den ≤ twoTo m := by
  simp only [roundUnits]
  rw [twoTo_eq_mul_grain hm, Nat.mul_assoc, Nat.mul_comm _ den] at h
  rw [twoTo_eq_mul_grain hm]
  have hquot : num / (den * twoTo (spareBits (num / den))) < twoTo (m - spareBits (num / den)) :=
    Nat.div_lt_of_lt_mul (by rwa [Nat.mul_comm])
  exact Nat.mul_le_mul_right _ (Nat.le_trans (nearest_le _ _) hquot)

/-- Nor the power of two below. -/
theorem le_roundUnits_of_le {num den m : Nat} (hden : 0 < den) (h : twoTo m * den ≤ num)
    (hm : (num / den).log2 ≤ m) : twoTo m ≤ roundUnits num den := by
  simp only [roundUnits]
  rw [twoTo_eq_mul_grain hm, Nat.mul_assoc, Nat.mul_comm _ den] at h
  rw [twoTo_eq_mul_grain hm]
  have hquot : twoTo (m - spareBits (num / den)) ≤ num / (den * twoTo (spareBits (num / den))) :=
    (Nat.le_div_iff_mul_le (Nat.mul_pos hden (twoTo_pos _))).2 h
  exact Nat.mul_le_mul_right _ (Nat.le_trans hquot (le_nearest _ _))

/-- A quotient is rounded up past its half, and an odd one also at its half. -/
theorem nearest_eq_succ_iff {num den : Nat} : nearest num den = num / den + 1 ↔
    den < 2 * (num % den) ∨ den = 2 * (num % den) ∧ num / den % 2 = 1 := by
  unfold nearest
  dsimp only
  split
  · omega
  · split
    · omega
    · split <;> omega

/-- Of two numerators the greater one is not rounded to less. -/
theorem nearest_mono {m n : Nat} (h : m ≤ n) (den : Nat) : nearest m den ≤ nearest n den := by
  have hupper := nearest_le m den
  have hlower := le_nearest n den
  obtain hlt | heq : m / den < n / den ∨ m / den = n / den :=
    Nat.lt_or_eq_of_le (Nat.div_le_div_right h)
  · omega
  · have hrest : m % den ≤ n % den := by
      have hm := Nat.div_add_mod m den
      have hn := Nat.div_add_mod n den
      rw [heq] at hm
      omega
    by_cases hup : nearest m den = m / den + 1
    · have hup' : nearest n den = n / den + 1 := by
        rw [nearest_eq_succ_iff] at hup ⊢
        omega
      omega
    · omega

theorem log2_le_of_le {u v : Nat} (h : u ≤ v) : u.log2 ≤ v.log2 := by
  by_cases hu : u = 0
  · simp [hu]
  · exact Nat.le_of_lt_succ (log2_lt_of_lt hu (Nat.lt_of_le_of_lt h Nat.lt_log2_self))

/-- Rounding keeps the order. -/
theorem roundUnits_mono {m n : Nat} (h : m ≤ n) (den : Nat) :
    roundUnits m den ≤ roundUnits n den := by
  have hlog : (m / den).log2 ≤ (n / den).log2 := log2_le_of_le (Nat.div_le_div_right h)
  by_cases hsame : spareBits (m / den) = spareBits (n / den)
  · simp only [roundUnits]
    rw [hsame]
    exact Nat.mul_le_mul_right _ (nearest_mono h _)
  · -- A power of two lies between the quotients, and rounding does not pass it.
    have hless : (m / den).log2 < (n / den).log2 := by
      unfold spareBits at hsame
      omega
    have hn : n / den ≠ 0 := by
      intro hzero
      simp [hzero] at hless
    have hden : 0 < den := Nat.pos_of_ne_zero fun hzero => hn (by rw [hzero, Nat.div_zero])
    have hupper : m / den < twoTo (n / den).log2 :=
      Nat.lt_of_lt_of_le Nat.lt_log2_self (twoTo_le hless)
    have hlower : twoTo (n / den).log2 ≤ n / den := Nat.log2_self_le hn
    calc roundUnits m den
        ≤ twoTo (n / den).log2 := roundUnits_le_of_lt ((Nat.div_lt_iff_lt_mul hden).1 hupper) hlog
      _ ≤ roundUnits n den :=
        le_roundUnits_of_le hden ((Nat.le_div_iff_mul_le hden).1 hlower) (Nat.le_refl _)

/-! ## The greatest double -/

/-- The weight of the last bit of the greatest doubles is twice the distance to the midpoint. -/
theorem twoTo_grain : twoTo 2045 = 2 * twoTo 2044 := twoTo_succ 2044

theorem limit_eq : limit = twoTo 53 * (2 * twoTo 2044) := by
  rw [← twoTo_grain]
  exact twoTo_add 53 2045

/-- Below an even number only what is nearer to it than to its predecessor is rounded to it. -/
theorem nearest_lt_iff {u half bound : Nat} (hhalf : 0 < half) (heven : bound % 2 = 0)
    (hu : u < bound * (2 * half)) :
    nearest u (2 * half) < bound ↔ u < bound * (2 * half) - half := by
  have hquot : u / (2 * half) < bound := (Nat.div_lt_iff_lt_mul (by omega)).2 hu
  have hdiv := Nat.div_add_mod u (2 * half)
  have hmod := Nat.mod_lt u (show 0 < 2 * half by omega)
  obtain hlast | hbelow : u / (2 * half) + 1 = bound ∨ u / (2 * half) + 1 < bound := by omega
  · -- The quotient is odd, so that the midpoint goes up.
    have hbound : bound * (2 * half) = 2 * half * (u / (2 * half)) + 2 * half := by
      rw [← hlast, Nat.succ_mul, Nat.mul_comm]
    unfold nearest
    dsimp only
    split
    · omega
    · split
      · omega
      · split <;> omega
  · have hnext := Nat.mul_le_mul_right (2 * half) (show u / (2 * half) + 2 ≤ bound by omega)
    have hexpand : (u / (2 * half) + 2) * (2 * half) =
        2 * half * (u / (2 * half)) + 2 * (2 * half) := by
      rw [Nat.add_mul, Nat.mul_comm]
    have hnearest := nearest_le u (2 * half)
    omega

/-- What is rounded to a double lies before the midpoint between the greatest double and the power of
two above it. -/
theorem roundUnits_lt_limit_iff (u : Nat) : roundUnits u 1 < limit ↔ u < limit - twoTo 2044 := by
  have hlimit := limit_eq
  have hhalf := twoTo_pos 2044
  have hdouble : twoTo 53 = 2 * twoTo 52 := twoTo_succ 52
  by_cases hu : u = 0
  · subst hu
    have hgreat : twoTo 2044 < limit := twoTo_lt (by omega)
    have hround : roundUnits 0 1 = 0 := by decide
    omega
  have hlower : twoTo u.log2 ≤ u := Nat.log2_self_le hu
  have hupper : u < twoTo (u.log2 + 1) := Nat.lt_log2_self
  obtain hsmall | hlast | hgreat : u.log2 < 2097 ∨ u.log2 = 2097 ∨ 2098 ≤ u.log2 := by omega
  · have hround : roundUnits u 1 ≤ twoTo (u.log2 + 1) :=
      roundUnits_le_of_lt (by rwa [Nat.mul_one]) (by simp)
    have hpower : twoTo (u.log2 + 1) ≤ twoTo (52 + 2045) := twoTo_le (by omega)
    have hsplit : twoTo (52 + 2045) = twoTo 52 * (2 * twoTo 2044) := by
      rw [twoTo_add, twoTo_grain]
    have hunit : 1 ≤ twoTo 52 := twoTo_pos 52
    have hbelow := Nat.mul_le_mul_right (2 * twoTo 2044) hunit
    rw [hdouble, Nat.mul_assoc] at hlimit
    omega
  · have hspare : spareBits u = 2045 := by
      unfold spareBits
      omega
    have hu' : u < twoTo 53 * (2 * twoTo 2044) := by
      rw [← hlimit]
      rw [hlast] at hupper
      exact hupper
    simp only [roundUnits, Nat.div_one, Nat.one_mul]
    rw [hspare, twoTo_grain, hlimit, Nat.mul_lt_mul_right (by omega)]
    exact nearest_lt_iff hhalf (by rw [hdouble, Nat.mul_mod_right]) hu'
  · have hround : twoTo u.log2 ≤ roundUnits u 1 :=
      le_roundUnits_of_le Nat.one_pos (by rwa [Nat.mul_one]) (by simp)
    have hpower : limit ≤ twoTo u.log2 := twoTo_le hgreat
    omega

theorem ofUnits_finite? (negative : Bool) (units : Nat) :
    (ofUnits negative units).finite? = none ↔ ¬units < limit := by
  unfold ofUnits
  split
  · rename_i h
    simp [finite?, h]
  · rename_i h
    simp [finite?, h]

/-- An integer has no double if and only if it lies beyond that midpoint. -/
theorem ofInt?_eq_none_iff {n : Int} : ofInt? n = none ↔ twoTo 1024 - twoTo 970 ≤ n.natAbs := by
  have hlimit : limit - twoTo 2044 = (twoTo 1024 - twoTo 970) * one := by
    rw [Nat.sub_mul, twoTo_mul_one, twoTo_mul_one, limit]
  rw [ofInt?, ofInt_apply, ofUnits_finite?, roundUnits_lt_limit_iff, hlimit,
    Nat.mul_lt_mul_right one_pos, Nat.not_lt]

end PuzzleContest.Binary64
