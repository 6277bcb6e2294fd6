import PuzzleContest.Cooldown

/-!
# Gates as time goes by, and as attempts are made

The gate of a cooldown is the rate limit.  As long as the calendar has the end of a cooldown, a gate is
a matter of one number: the microseconds that are left to wait, which depend on instants only.  They go
down with the clock until the gate opens, and then it stays open.

More attempts do not always make for a longer wait.  A plan may impose a second cooldown that is shorter
than the first one, and the end of a cooldown may lie past the calendar, where the gate comes to no
decision.

Main definitions:

- `Cooldown.Plan.wait`: the microseconds that are left to wait.
- `Cooldown.Ends`: the calendar has the end of a cooldown.
- `Cooldown.CountsDown`: how a gate behaves as time goes by.
- `Cooldown.Eases`: the second cooldown opens a gate that the first one keeps shut.

Main results:

- `Cooldown.gate_of_ends`: a gate is a matter of the microseconds that are left.
- `Cooldown.gate_eq_clear_of_le`: a gate that is clear stays clear while the try is left alone.
- `Cooldown.countsDown_of_ends`: a gate counts down.
- `Cooldown.gate_escalates_iff`: where a gate comes to no decision, and when more attempts make for a
  shorter wait.
-/

namespace PuzzleContest

theorem Moment.isSome_shift?_iff {m : Moment} {micros : Int} : (m.shift? micros).isSome = true ↔
    0 ≤ m.wall + micros ∧ m.wall + micros < wallLimit := by
  unfold shift?
  dsimp only
  split <;> simp [*]

namespace Cooldown

variable {plan : Plan} {attempts : Int} {lastMove : Option Moment} {now later : Moment}

/-! ## What is left to wait -/

/-- The microseconds that are left to wait, by the instants of the last move and of now. -/
def Plan.wait (plan : Plan) (attempts : Int) (lastMove : Option Int) (now : Int) : Int :=
  match lastMove, plan.cooldown? attempts with
  | some last, some cooldown => max 0 (last + cooldown - now)
  | _, _ => 0

/-- The gate before somebody who has so many microseconds to wait. -/
def Gate.ofWait (micros : Int) : Gate := if 0 < micros then .blocked micros else .clear

namespace Gate

variable {micros remaining : Int}

theorem isBlocked_ofWait : (ofWait micros).isBlocked = true ↔ 0 < micros := by
  unfold ofWait
  split <;> simp [isBlocked, *]

theorem remaining_ofWait (h : 0 ≤ micros) : (ofWait micros).remaining = micros := by
  unfold ofWait
  split
  · rfl
  · simp only [Gate.remaining]
    omega

theorem ofWait_max : ofWait (max 0 micros) = ofWait micros := by
  by_cases h : 0 < micros
  · rw [Int.max_eq_right (Int.le_of_lt h)]
  · rw [Int.max_eq_left (Int.not_lt.1 h), ofWait, ofWait, if_neg h, if_neg (Int.lt_irrefl 0)]

theorem ofWait_eq_clear_iff : ofWait micros = .clear ↔ micros ≤ 0 := by
  unfold ofWait
  split
  · simp only [reduceCtorEq, false_iff]
    omega
  · simp only [true_iff]
    omega

theorem ofWait_eq_blocked_iff : ofWait micros = .blocked remaining ↔ 0 < micros ∧ micros = remaining := by
  unfold ofWait
  split <;> simp [*]

end Gate

/-- The calendar has the end of the cooldown, if there is one. -/
def Ends (plan : Plan) (attempts : Int) (lastMove : Option Moment) : Prop :=
  ∀ last cooldown, lastMove = some last → plan.cooldown? attempts = some cooldown →
    (last.shift? cooldown).isSome = true

theorem Plan.wait_nonneg (plan : Plan) (attempts : Int) (lastMove : Option Int) (now : Int) :
    0 ≤ plan.wait attempts lastMove now := by
  unfold wait
  split
  · exact Int.le_max_left _ _
  · exact Int.le_refl 0

/-- What is left to wait goes down with the clock. -/
theorem Plan.wait_later (plan : Plan) (attempts : Int) (lastMove : Option Int) {now later : Int}
    (h : now ≤ later) : plan.wait attempts lastMove later =
      max 0 (plan.wait attempts lastMove now - (later - now)) := by
  unfold wait
  split <;> omega

/-- A gate is a matter of the microseconds that are left. -/
theorem gate_of_ends (h : Ends plan attempts lastMove) (now : Moment) :
    gate plan attempts lastMove now =
      some (.ofWait (plan.wait attempts (lastMove.map Moment.instant) now.instant)) := by
  unfold gate Plan.wait
  cases lastMove with
  | none => rfl
  | some last =>
    cases hcooldown : plan.cooldown? attempts with
    | none => rfl
    | some cooldown =>
      obtain ⟨stop, hstop⟩ := Option.isSome_iff_exists.1 (h last cooldown rfl hcooldown)
      have hinstant := Moment.instant_shift? hstop
      simp only [hstop, Option.map_some, Gate.ofWait_max]
      simp only [Gate.ofWait, Moment.since, hinstant, Int.sub_pos]

/-- Where a gate comes to a decision, the calendar has the end of the cooldown. -/
theorem ends_of_gate {g : Gate} (h : gate plan attempts lastMove now = some g) :
    Ends plan attempts lastMove := by
  rintro last cooldown rfl hcooldown
  cases hstop : last.shift? cooldown with
  | none => simp [gate, hcooldown, hstop] at h
  | some stop => rfl

theorem gate_eq_none_iff : gate plan attempts lastMove now = none ↔ ¬Ends plan attempts lastMove := by
  constructor
  · intro hnone hends
    rw [gate_of_ends hends] at hnone
    simp at hnone
  · intro hends
    cases hgate : gate plan attempts lastMove now with
    | none => rfl
    | some g => exact absurd (ends_of_gate hgate) hends

/-! ## Time -/

/-- A gate that is clear stays clear while the try is left alone. -/
theorem gate_eq_clear_of_le (h : gate plan attempts lastMove now = some .clear)
    (hle : now.instant ≤ later.instant) : gate plan attempts lastMove later = some .clear := by
  have hends := ends_of_gate h
  rw [gate_of_ends hends, Option.some.injEq, Gate.ofWait_eq_clear_iff] at h ⊢
  rw [plan.wait_later attempts _ hle]
  omega

/-- Of what a shut gate has left, the time that goes by is no longer left. -/
theorem gate_of_blocked_of_le {remaining : Int}
    (h : gate plan attempts lastMove now = some (.blocked remaining))
    (hle : now.instant ≤ later.instant) :
    gate plan attempts lastMove later = some (.ofWait (remaining - later.since now)) := by
  have hends := ends_of_gate h
  rw [gate_of_ends hends, Option.some.injEq, Gate.ofWait_eq_blocked_iff] at h
  rw [gate_of_ends hends, plan.wait_later attempts _ hle, h.2, Gate.ofWait_max]
  rfl

/-- A shut gate has left what is left until the end of the cooldown after the last move. -/
theorem gate_eq_blocked_iff {remaining : Int} :
    gate plan attempts lastMove now = some (.blocked remaining) ↔
      ∃ last cooldown stop, lastMove = some last ∧ plan.cooldown? attempts = some cooldown ∧
        last.shift? cooldown = some stop ∧ now.instant < stop.instant ∧
          stop.since now = remaining := by
  constructor
  · intro h
    unfold gate at h
    cases lastMove with
    | none => exact absurd h (by simp)
    | some last =>
      cases hcooldown : plan.cooldown? attempts with
      | none => exact absurd h (by simp [hcooldown])
      | some cooldown =>
        cases hstop : last.shift? cooldown with
        | none => exact absurd h (by simp [hcooldown, hstop])
        | some stop =>
          refine ⟨last, cooldown, stop, rfl, rfl, hstop, ?_⟩
          by_cases hbefore : now.instant < stop.instant
          · simpa [hcooldown, hstop, hbefore] using h
          · exact absurd h (by simp [hcooldown, hstop, hbefore])
  · rintro ⟨last, cooldown, stop, rfl, hcooldown, hstop, hbefore, rfl⟩
    simp [gate, hcooldown, hstop, hbefore]

/-- The gate is shut as long as the cooldown after the last move has not ended. -/
theorem gate_blocked_iff : (∃ remaining, gate plan attempts lastMove now = some (.blocked remaining)) ↔
    ∃ last cooldown stop, lastMove = some last ∧ plan.cooldown? attempts = some cooldown ∧
      last.shift? cooldown = some stop ∧ now.instant < stop.instant := by
  constructor
  · rintro ⟨remaining, h⟩
    obtain ⟨last, cooldown, stop, hmove, hcooldown, hstop, hbefore, -⟩ := gate_eq_blocked_iff.1 h
    exact ⟨last, cooldown, stop, hmove, hcooldown, hstop, hbefore⟩
  · rintro ⟨last, cooldown, stop, hmove, hcooldown, hstop, hbefore⟩
    exact ⟨stop.since now,
      gate_eq_blocked_iff.2 ⟨last, cooldown, stop, hmove, hcooldown, hstop, hbefore, rfl⟩⟩

/-- How a gate behaves as time goes by. -/
structure CountsDown (plan : Plan) (attempts : Int) (lastMove : Option Moment) : Prop where
  /-- There is a decision at any time. -/
  decides : ∀ now, ∃ g, gate plan attempts lastMove now = some g
  /-- Whichever clocks show the instants of the last move and of now, the decision is the same. -/
  instants : ∀ {lastMove' : Option Moment} {now now' : Moment}, Ends plan attempts lastMove' →
    lastMove'.map Moment.instant = lastMove.map Moment.instant → now'.instant = now.instant →
      gate plan attempts lastMove' now' = gate plan attempts lastMove now
  /-- A clock of unknown distance is as good as one on universal time. -/
  utc : ∀ now, gate plan attempts (lastMove.map Moment.inUtc) now.inUtc =
    gate plan attempts lastMove now
  /-- Who does not have to wait has nothing left, and who has to wait has something. -/
  remaining : ∀ {now g}, gate plan attempts lastMove now = some g →
    (g.isBlocked = false → g.remaining = 0) ∧ (g.isBlocked = true → 0 < g.remaining)
  /-- An open gate stays open. -/
  opened : ∀ {now later : Moment}, now.instant ≤ later.instant →
    gate plan attempts lastMove now = some .clear → gate plan attempts lastMove later = some .clear
  /-- A shut gate opens after what is left, and until then less and less is left. -/
  shut : ∀ {now later : Moment} {remaining : Int}, now.instant ≤ later.instant →
    gate plan attempts lastMove now = some (.blocked remaining) →
      gate plan attempts lastMove later =
        some (if later.since now < remaining then .blocked (remaining - later.since now) else .clear)

/-- A clock that tells its distance has the same readings. -/
theorem Ends.inUtc (h : Ends plan attempts lastMove) :
    Ends plan attempts (lastMove.map Moment.inUtc) := by
  intro last cooldown hlast hcooldown
  obtain ⟨bare, hbare, rfl⟩ := Option.map_eq_some_iff.1 hlast
  have hbounds := Moment.isSome_shift?_iff.1 (h bare cooldown hbare hcooldown)
  exact Moment.isSome_shift?_iff.2 hbounds

/-- A gate whose cooldown ends counts down. -/
theorem countsDown_of_ends (h : Ends plan attempts lastMove) : CountsDown plan attempts lastMove where
  decides now := ⟨_, gate_of_ends h now⟩
  instants hends' hlast hnow := by rw [gate_of_ends hends', gate_of_ends h, hlast, hnow]
  utc now := by
    rw [gate_of_ends h.inUtc, gate_of_ends h, Option.map_map]
    rfl
  remaining := by
    intro now g hg
    rw [gate_of_ends h, Option.some.injEq] at hg
    have hnonneg := plan.wait_nonneg attempts (lastMove.map Moment.instant) now.instant
    rw [← hg, Gate.remaining_ofWait hnonneg, Gate.isBlocked_ofWait, ← Bool.not_eq_true,
      Gate.isBlocked_ofWait]
    omega
  opened hle hclear := gate_eq_clear_of_le hclear hle
  shut hle hblocked := by
    rw [gate_of_blocked_of_le hblocked hle]
    simp only [Gate.ofWait, Int.sub_pos]

/-- The last move is shown by a clock of unknown distance, the time by one that is an hour ahead. -/
theorem countsDown_of_ends_sample :
    let last : Moment := ⟨0, none⟩
    let now : Moment := ⟨3720000000, some 3600⟩
    let later : Moment := ⟨179999999, some 0⟩
    Ends {} 3 (some last) ∧ now.instant ≤ later.instant ∧
      gate {} 3 (some last) now = some (.blocked 60000000) ∧
      gate {} 3 (some last.inUtc) now.inUtc = some (.blocked 60000000) ∧
      gate {} 3 (some last) later = some (.blocked 1) := by
  intro last now later
  have hends : Ends {} 3 (some last) := by
    rintro _ _ ⟨⟩ ⟨⟩
    decide
  have hle : now.instant ≤ later.instant := by decide
  have hnow : gate {} 3 (some last) now = some (.blocked 60000000) := by decide
  refine ⟨hends, hle, hnow, ?_, ?_⟩
  · exact ((countsDown_of_ends hends).utc now).trans hnow
  · exact (countsDown_of_ends hends).shut hle hnow

/-! ## Attempts -/

/-- Below the first threshold there is no cooldown, … -/
theorem Plan.cooldown?_of_lt (h : attempts < plan.threshold1) : plan.cooldown? attempts = none := by
  have horder := plan.threshold1_lt
  rw [cooldown?, if_neg (by omega), if_neg (by omega)]

/-- … below the second one there is the first cooldown, … -/
theorem Plan.cooldown?_of_le_of_lt (h : plan.threshold1 ≤ attempts) (h' : attempts < plan.threshold2) :
    plan.cooldown? attempts = some plan.cooldown1 := by
  rw [cooldown?, if_neg (by omega), if_pos h]

/-- … and from there on the second one. -/
theorem Plan.cooldown?_of_le (h : plan.threshold2 ≤ attempts) :
    plan.cooldown? attempts = some plan.cooldown2 := if_pos h

theorem Plan.cooldown?_nonneg {cooldown : Int} (h : plan.cooldown? attempts = some cooldown) :
    0 ≤ cooldown := by
  unfold cooldown? at h
  split at h
  · exact Option.some.inj h ▸ plan.cooldown2_nonneg
  · split at h
    · exact Option.some.inj h ▸ plan.cooldown1_nonneg
    · exact absurd h (by simp)

/-- The second cooldown is the shorter one, and it opens a gate that the first one keeps shut: to the
greater number of attempts sooner than to the smaller one. -/
structure Eases (plan : Plan) (a b : Int) (last now : Moment) : Prop where
  reached : plan.threshold1 ≤ a
  below : a < plan.threshold2
  passed : plan.threshold2 ≤ b
  shorter : plan.cooldown2 < plan.cooldown1
  waiting : now.instant < last.instant + plan.cooldown1

/-- What is left to wait after more attempts is less only if the second cooldown eases it. -/
theorem Plan.wait_le_wait_iff (plan : Plan) {a b : Int} (hab : a ≤ b) (last now : Moment) :
    plan.wait a (some last.instant) now.instant ≤ plan.wait b (some last.instant) now.instant ↔
      ¬Eases plan a b last now := by
  constructor
  · rintro hle ⟨hreached, hbelow, hpassed, hshorter, hwaiting⟩
    simp only [wait, cooldown?_of_le_of_lt hreached hbelow, cooldown?_of_le hpassed] at hle
    omega
  · intro heases
    obtain hnone | hfirst | hsecond : a < plan.threshold1 ∨
        (plan.threshold1 ≤ a ∧ a < plan.threshold2) ∨ plan.threshold2 ≤ a := by omega
    · simp only [wait, cooldown?_of_lt hnone]
      exact plan.wait_nonneg b (some last.instant) now.instant
    · obtain hbelow | hpassed : b < plan.threshold2 ∨ plan.threshold2 ≤ b := by omega
      · simp only [wait, cooldown?_of_le_of_lt hfirst.1 hfirst.2,
          cooldown?_of_le_of_lt (Int.le_trans hfirst.1 hab) hbelow]
        exact Int.le_refl _
      · simp only [wait, cooldown?_of_le_of_lt hfirst.1 hfirst.2, cooldown?_of_le hpassed]
        have hnot : ¬(plan.cooldown2 < plan.cooldown1 ∧ now.instant < last.instant + plan.cooldown1) :=
          fun h => heases ⟨hfirst.1, hfirst.2, hpassed, h.1, h.2⟩
        omega
    · simp only [wait, cooldown?_of_le hsecond, cooldown?_of_le (Int.le_trans hsecond hab)]
      exact Int.le_refl _

/-- While the last move is on the calendar, the end of a cooldown can only lie past it. -/
theorem not_ends_iff (hlast : ∀ last, lastMove = some last → last.isPossible = true) :
    ¬Ends plan attempts lastMove ↔ ∃ last cooldown, lastMove = some last ∧
      plan.cooldown? attempts = some cooldown ∧ Moment.wallLimit ≤ last.wall + cooldown := by
  constructor
  · intro hends
    refine Classical.byContradiction fun hnot => hends fun last cooldown hmove hcooldown => ?_
    have hwall : 0 ≤ last.wall ∧ last.wall < Moment.wallLimit := by
      simpa [Moment.isPossible] using hlast last hmove
    have hnonneg := Plan.cooldown?_nonneg hcooldown
    refine Moment.isSome_shift?_iff.2 ⟨by omega, Int.not_le.1 fun hpast => ?_⟩
    exact hnot ⟨last, cooldown, hmove, hcooldown, hpast⟩
  · rintro ⟨last, cooldown, hmove, hcooldown, hpast⟩ hends
    have hbounds := Moment.isSome_shift?_iff.1 (hends last cooldown hmove hcooldown)
    omega

/-- Where a gate comes to no decision, and when more attempts make for a shorter wait. -/
theorem gate_escalates_iff (plan : Plan) {a b : Int} (hab : a ≤ b) (lastMove : Option Moment)
    (hlast : ∀ last, lastMove = some last → last.isPossible = true) (now : Moment) :
    (∀ attempts, gate plan attempts lastMove now = none ↔ ∃ last cooldown, lastMove = some last ∧
      plan.cooldown? attempts = some cooldown ∧ Moment.wallLimit ≤ last.wall + cooldown) ∧
    ∀ early late, gate plan a lastMove now = some early → gate plan b lastMove now = some late →
      ((early.isBlocked = true → late.isBlocked = true) ∧ early.remaining ≤ late.remaining ↔
        ¬∃ last, lastMove = some last ∧ Eases plan a b last now) := by
  refine ⟨fun attempts => gate_eq_none_iff.trans (not_ends_iff hlast),
    fun early late hearly hlate => ?_⟩
  rw [gate_of_ends (ends_of_gate hearly), Option.some.injEq] at hearly
  rw [gate_of_ends (ends_of_gate hlate), Option.some.injEq] at hlate
  rw [← hearly, ← hlate, Gate.isBlocked_ofWait, Gate.isBlocked_ofWait,
    Gate.remaining_ofWait (plan.wait_nonneg _ _ _), Gate.remaining_ofWait (plan.wait_nonneg _ _ _)]
  cases lastMove with
  | none => simp [Plan.wait]
  | some last =>
    have hiff := plan.wait_le_wait_iff hab last now
    rw [Option.map_some]
    constructor
    · rintro ⟨-, hle⟩ ⟨_, heq, heases⟩
      obtain rfl := Option.some.inj heq
      exact hiff.1 hle heases
    · intro hnot
      have hle := hiff.2 fun heases => hnot ⟨last, rfl, heases⟩
      exact ⟨fun hblocked => Int.lt_of_lt_of_le hblocked hle, hle⟩

/-- With a first cooldown of five minutes and a second one of one minute, a minute after the last move the
fifth attempt opens the gate that the fourth one kept shut. -/
theorem gate_escalates_iff_sample :
    let easingPlan : Plan := { cooldown1 := 300000000, cooldown2 := 60000000 }
    let last : Moment := ⟨0, none⟩
    let now : Moment := ⟨60000000, some 0⟩
    (4 : Int) ≤ 5 ∧ last.isPossible = true ∧
      gate easingPlan 4 (some last) now = some (.blocked 240000000) ∧
      gate easingPlan 5 (some last) now = some .clear ∧ gate easingPlan 6 (some last) now ≠ none ∧
      Eases easingPlan 4 5 last now := by
  intro easingPlan last now
  have hlast : ∀ x, some last = some x → x.isPossible = true := by
    rintro _ ⟨⟩
    decide
  have hfour : gate easingPlan 4 (some last) now = some (.blocked 240000000) := by decide
  have hfive : gate easingPlan 5 (some last) now = some .clear := by decide
  obtain ⟨htotal, hiff⟩ := gate_escalates_iff easingPlan (show (4 : Int) ≤ 5 by decide) (some last)
    hlast now
  refine ⟨by decide, by decide, hfour, hfive, ?_, ?_⟩
  · intro hnone
    obtain ⟨_, _, ⟨⟩, ⟨⟩, hpast⟩ := (htotal 6).1 hnone
    exact absurd hpast (by decide)
  · have hshorter : ¬((Gate.blocked 240000000).isBlocked = true → Gate.clear.isBlocked = true) := by
      decide
    obtain ⟨_, ⟨⟩, heases⟩ := Classical.not_not.1
      (mt (hiff _ _ hfour hfive).2 fun h => hshorter h.1)
    exact heases

/-- Plans that make sense can leave a gate without a decision, and they can make for a shorter wait after
more attempts. -/
theorem not_forall_gate_escalates :
    (¬∀ (threshold1 threshold2 cooldown1 cooldown2 : Int) (plan : Plan),
      Plan.make threshold1 threshold2 cooldown1 cooldown2 = .ok plan →
      ∀ (attempts : Int) (last now : Moment), last.isPossible = true → now.isPossible = true →
        (gate plan attempts (some last) now).isSome = true) ∧
    ¬∀ (threshold1 threshold2 cooldown1 cooldown2 : Int) (plan : Plan),
      Plan.make threshold1 threshold2 cooldown1 cooldown2 = .ok plan →
      ∀ (a b : Int) (last now : Moment) (early late : Gate), a ≤ b →
        gate plan a (some last) now = some early → gate plan b (some last) now = some late →
          (early.isBlocked = true → late.isBlocked = true) ∧ early.remaining ≤ late.remaining := by
  constructor
  · intro h
    have hdecides := h 3 5 180000000 300000000 {} rfl 3 ⟨Moment.wallLimit - 60000000, some 0⟩
      ⟨Moment.wallLimit - 30000000, some 0⟩ (by decide) (by decide)
    revert hdecides
    decide
  · intro h
    have hescalates := h 3 5 300000000 60000000
      { cooldown1 := 300000000, cooldown2 := 60000000 } rfl 4 5 ⟨0, none⟩ ⟨60000000, some 0⟩
      (.blocked 240000000) .clear (by decide) (by decide) (by decide)
    revert hescalates
    decide

end Cooldown

end PuzzleContest
