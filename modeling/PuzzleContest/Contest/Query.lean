import PuzzleContest.Contest.Submission

/-!
# Looking at a contest

The reads of the attempt service.  Each opens one session and reads in it, except that the first puzzle
is visible without one.

Main definitions:

- `Contest.tryOf`: the try of a key.
- `Contest.puzzleTries`, `competitionTries`, `playerTries`: the listings.
- `Contest.mayView`: whether a player may see the puzzle at an index.
-/

namespace PuzzleContest.Contest

/-! ## Reads in an open session -/

/-- Read a player's tries on one puzzle. -/
def readPuzzleTries (competition player puzzle : String) (index : Int) :
    Action (List (Try Nat)) := do
  checkInteger index
  Action.view fun c => c.store.ofPuzzle competition player puzzle index

/-- A try with its player, if the directory has one. -/
def snapshot (c : Contest) (t : Try Nat) : Snapshot Nat := ⟨t, c.directory.player? t.key.player⟩

/-- Read the tries of a competition with their players. -/
def readCompetitionTries (competition : String) : Action (List (Snapshot Nat)) :=
  Action.view fun c => (c.store.ofCompetition competition).map c.snapshot

/-- Read a player's tries in a competition. -/
def readPlayerTries (competition player : String) : Action (List (Snapshot Nat)) :=
  Action.view fun c => (c.store.ofPlayer competition player).map c.snapshot

/-- Read whether a player may see the puzzle at an index. -/
def readView (competition player : String) (index : Int) : Action Bool :=
  if index = 0 then pure true
  else do
    checkInteger (index - 1)
    Action.view fun c => c.store.unlocks competition player index

/-! ## Whole reads -/

/-- Look for the try of a key. -/
def seekTry (key : Try.Key) : Action Unit := do
  checkStep key.step
  seek .tryNotFound

/-- The try of a key, which must be there. -/
def tryOf (key : Try.Key) : Action (Try Nat) := do
  seekTry key
  demandTry key .tryNotFound

/-- A player's tries on one puzzle, oldest first. -/
def puzzleTries (competition player puzzle : String) (index : Int) : Action (List (Try Nat)) := do
  session
  readPuzzleTries competition player puzzle index

/-- All tries of a competition with their players. -/
def competitionTries (competition : String) : Action (List (Snapshot Nat)) := do
  session
  readCompetitionTries competition

/-- A player's tries in a competition. -/
def playerTries (competition player : String) : Action (List (Snapshot Nat)) := do
  session
  readPlayerTries competition player

/-- Open the session that the question of visibility needs, if it needs one. -/
def seekView (index : Int) : Action Unit := if index = 0 then pure () else session

/-- Whether a player may see the puzzle at an index. -/
def mayView (competition player : String) (index : Int) : Action Bool := do
  seekView index
  readView competition player index

end PuzzleContest.Contest
