import PuzzleContest.Binary64
import PuzzleContest.Moment

/-!
# Tries

A try is one player's work on one step of a puzzle in a competition.  It is finished when it has an
end, and it counts the answers given.  Whenever a try is made or changed, a snapshot of it is
announced together with its player.

Main definitions:

- `Try.Key`: what identifies a try; there is at most one per key.
- `Try`: a try with an id of some type.
- `Snapshot`, `Announcement`: what spectators are told.
-/

namespace PuzzleContest

/-- The first step of a puzzle. -/
def firstStep : Int := 1

/-- The second and last step of a puzzle. -/
def lastStep : Int := 2

/-- A player's step of a puzzle in a competition. -/
structure Try.Key where
  competition : String
  player : String
  puzzle : String
  index : Int
  step : Int
deriving DecidableEq, Repr

/-- A player's work on one step of a puzzle. -/
structure Try (ι : Type) where
  id : ι
  key : Try.Key
  level : String
  start : Moment
  /-- Set once, when the step is solved. -/
  finish : Option Moment := none
  attempts : Int := 0
  lastAnswer : Option String := none
  lastMove : Option Moment := none
  score : Binary64 := .finite false 0
deriving DecidableEq, Repr

/-- Whether a try is finished. -/
def Try.isFinished {ι : Type} (t : Try ι) : Bool := t.finish.isSome

/-- A group of players. -/
structure Group where
  id : String
  name : String
  description : Option String := none
deriving DecidableEq, Repr

/-- A player with all groups, as shown to spectators. -/
structure Player where
  id : String
  firstName : String
  lastName : String
  groups : List Group := []
deriving DecidableEq, Repr

/-- A try with its player, if that is known. -/
structure Snapshot (ι : Type) where
  entry : Try ι
  player : Option Player := none
deriving DecidableEq, Repr

/-- What has happened to a try. -/
inductive News where
  | made
  | changed
deriving DecidableEq, Repr

/-- The news of a try of a competition. -/
structure Announcement (ι : Type) where
  competition : String
  snapshot : Snapshot ι
  news : News
deriving DecidableEq, Repr

end PuzzleContest
