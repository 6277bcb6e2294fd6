import PuzzleContest.Moment

/-!
# Cooldowns

This is the rate limit: after a number of attempts a new one has to wait.  A plan has two tiers: from
the first threshold on the first cooldown counts from the last move, and from the second threshold on
the second one.

Main definitions:

- `Cooldown.Plan`: thresholds and cooldowns that make sense together.
- `Cooldown.Plan.make`: the plan of some numbers, or what is wrong with them.
- `Cooldown.gate`: whether a new attempt has to wait, and for how long.
-/

namespace PuzzleContest.Cooldown

/-- Two tiers of cooldowns in microseconds: the thresholds rise, and no cooldown is negative. -/
structure Plan where
  threshold1 : Int := 3
  threshold2 : Int := 5
  cooldown1 : Int := 180000000
  cooldown2 : Int := 300000000
  threshold1_pos : 0 < threshold1 := by decide
  threshold1_lt : threshold1 < threshold2 := by decide
  cooldown1_nonneg : 0 ≤ cooldown1 := by decide
  cooldown2_nonneg : 0 ≤ cooldown2 := by decide
deriving DecidableEq, Repr

instance : Inhabited Plan := ⟨{}⟩

/-- Why numbers make no plan. -/
inductive Misconfiguration where
  /-- A cooldown has more days than a duration can have. -/
  | tooLong (days : Int)
  | thresholds
  | negative
deriving DecidableEq, Repr

/-- The wording of a misconfiguration. -/
def Misconfiguration.message : Misconfiguration → String
  | .tooLong days => "days=" ++ toString days ++ "; must have magnitude <= 999999999"
  | .thresholds => "rate limit thresholds must satisfy 0 < threshold_1 < threshold_2"
  | .negative => "rate limit cooldowns must not be negative"

/-- The greatest number of days that a duration can have, in either direction. -/
def dayLimit : Int := 999999999

/-- Refuse durations of too many days. -/
def checkDuration (micros : Int) : Except Misconfiguration Unit :=
  let days := micros.fdiv Moment.day
  if -dayLimit ≤ days ∧ days ≤ dayLimit then .ok () else .error (.tooLong days)

/-- The plan of two thresholds and two cooldowns.  Durations are checked first, then thresholds. -/
def Plan.make (threshold1 threshold2 cooldown1 cooldown2 : Int) : Except Misconfiguration Plan := do
  checkDuration cooldown1
  checkDuration cooldown2
  if ht : 0 < threshold1 ∧ threshold1 < threshold2 then
    if hc : 0 ≤ cooldown1 ∧ 0 ≤ cooldown2 then
      return {
        threshold1, threshold2, cooldown1, cooldown2
        threshold1_pos := ht.1
        threshold1_lt := ht.2
        cooldown1_nonneg := hc.1
        cooldown2_nonneg := hc.2 }
    else throw .negative
  else throw .thresholds

/-- The plan whose cooldowns are given in seconds. -/
def Plan.ofSeconds (threshold1 threshold2 seconds1 seconds2 : Int) : Except Misconfiguration Plan :=
  Plan.make threshold1 threshold2 (seconds1 * Moment.second) (seconds2 * Moment.second)

/-- The cooldown that a number of attempts imposes, the highest tier first. -/
def Plan.cooldown? (plan : Plan) (attempts : Int) : Option Int :=
  if plan.threshold2 ≤ attempts then some plan.cooldown2
  else if plan.threshold1 ≤ attempts then some plan.cooldown1
  else none

/-- Whether a new attempt may be made now. -/
inductive Gate where
  | clear
  | blocked (remaining : Int)
deriving DecidableEq, Repr

/-- Whether the gate is shut. -/
def Gate.isBlocked : Gate → Bool
  | .clear => false
  | .blocked _ => true

/-- The microseconds until the gate opens. -/
def Gate.remaining : Gate → Int
  | .clear => 0
  | .blocked remaining => remaining

/--
Whether a new attempt has to wait, given the attempts so far and the last move.  The cooldown
ends a moment after the last move, the end itself excluded; `none` if no calendar has that end.
-/
def gate (plan : Plan) (attempts : Int) (lastMove : Option Moment) (now : Moment) : Option Gate :=
  match lastMove with
  | none => some .clear
  | some last =>
    match plan.cooldown? attempts with
    | none => some .clear
    | some cooldown =>
      match last.shift? cooldown with
      | none => none
      | some stop => some (if now.instant < stop.instant then .blocked (stop.since now) else .clear)

end PuzzleContest.Cooldown
