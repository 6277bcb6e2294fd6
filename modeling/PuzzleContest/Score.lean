import PuzzleContest.Binary64
import PuzzleContest.Moment

/-!
# Scores

A solved step is worth a base score, points for the time taken and a malus for the attempts made,
all times a factor that grows with the index of the puzzle.

Main definitions:

- `baseScore`, `timePoints`, `attemptsMalus`, `indexMultiplier`: the four parts.
- `elapsedMinutes`: whole minutes between two moments.
- `score?`: the score as a double, unless it is too large for one.
-/

namespace PuzzleContest

/-- The three difficulties that earn points. -/
inductive Level where
  | easy
  | medium
  | hard
deriving DecidableEq, Repr

/-- The level of a name; other names earn no points. -/
def Level.ofName? (name : String) : Option Level :=
  if name = "EASY" then some .easy
  else if name = "MEDIUM" then some .medium
  else if name = "HARD" then some .hard
  else none

namespace Score

/-- The base score of a level for the first and the second step. -/
def baseOf : Level → Int × Int
  | .easy => (15, 35)
  | .medium => (35, 65)
  | .hard => (65, 135)

/-- The base score of a level and a step; nothing for an unknown level or step. -/
def baseScore (level : String) (step : Int) : Int :=
  match Level.ofName? level with
  | none => 0
  | some l => if step = 1 then (baseOf l).1 else if step = 2 then (baseOf l).2 else 0

/-- Time bands of a level: below so many minutes, so many points; and the points past the last. -/
def bands : Level → List (Int × Int) × Int
  | .easy => ([(10, 20), (30, 10)], -5)
  | .medium => ([(20, 20), (40, 10)], -5)
  | .hard => ([(40, 75), (90, 40), (120, 20)], 0)

/-- The points of the first band that a number of minutes is below. -/
def bandPoints (minutes : Int) : List (Int × Int) → Int → Int
  | [], past => past
  | (limit, points) :: rest, past =>
    if minutes < limit then points else bandPoints minutes rest past

/-- The points for the time taken; nothing for an unknown level. -/
def timePoints (level : String) (minutes : Int) : Int :=
  match Level.ofName? level with
  | none => 0
  | some l => bandPoints minutes (bands l).1 (bands l).2

/-- The malus for the attempts made. -/
def attemptsMalus (attempts : Int) : Int :=
  if 10 < attempts then -10 else if 5 < attempts then -5 else if 3 < attempts then -2 else 0

/-- Every hundred puzzles add one to the factor. -/
def indexMultiplier (index : Int) : Int := 1 + index.fdiv 100

/-- The units of the double nearest to a number of microseconds, in seconds. -/
def secondUnits (micros : Nat) : Nat := Binary64.roundUnits (micros * Binary64.one) 1000000

/--
Whole minutes between two moments, never negative.  The seconds between them are rounded to a
double before they are divided.
-/
def elapsedMinutes (start finish : Moment) : Int :=
  let micros := finish.since start
  if micros ≤ 0 then 0 else (secondUnits micros.toNat / (60 * Binary64.one) : Nat)

/-- The score before it is rounded to a double. -/
def total (level : String) (index step : Int) (start finish : Moment) (attempts : Int) : Int :=
  (baseScore level step + timePoints level (elapsedMinutes start finish) + attemptsMalus attempts) *
    indexMultiplier index

/-- The score of a solved step; `none` if it is beyond the range of doubles. -/
def score? (level : String) (index step : Int) (start finish : Moment) (attempts : Int) :
    Option Binary64 :=
  Binary64.ofInt? (total level index step start finish attempts)

end Score

end PuzzleContest
