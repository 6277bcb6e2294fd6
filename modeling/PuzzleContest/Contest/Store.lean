import PuzzleContest.Contest.Failure
import PuzzleContest.Try

/-!
# The store of tries

The store is the table of tries, or attempts.  It keeps them in the order in which they were made and
numbers them.  It accepts one try per key, and its integers have 64 bits.

Main definitions:

- `Store.find?`, `Store.add?`, `Store.replace`: look up, make and change a try.
- `Store.ofPuzzle`, `Store.ofCompetition`, `Store.ofPlayer`: the three listings with their orders.
- `Store.unlocks`: whether a player may see the puzzle at an index.
-/

namespace PuzzleContest

/-- The tries made so far, and how many numbers have been given out. -/
structure Store where
  tries : List (Try Nat) := []
  issued : Nat := 0
deriving DecidableEq, Repr

namespace Store

/-- Integers that can be stored lie from minus this number to below it. -/
def integerBound : Int := Binary64.twoTo 63

/-- Whether an integer can be stored. -/
def holds (n : Int) : Bool := decide (-integerBound ≤ n ∧ n < integerBound)

/-- The try of a key. -/
def find? (s : Store) (key : Try.Key) : Option (Try Nat) := s.tries.find? fun t => t.key = key

/-- A new try, which nobody has answered yet. -/
def fresh (id : Nat) (key : Try.Key) (level : String) (start : Moment) : Try Nat :=
  { id, key, level, start }

/-- Make a try, unless there is one of its key. -/
def add? (s : Store) (key : Try.Key) (level : String) (start : Moment) :
    Option (Try Nat × Store) :=
  match s.find? key with
  | some _ => none
  | none =>
    let t := fresh s.issued key level start
    some (t, { tries := s.tries ++ [t], issued := s.issued + 1 })

/-- Put a try in the place of the one of its number. -/
def replace (s : Store) (t : Try Nat) : Store :=
  { s with tries := s.tries.map fun u => if u.id = t.id then t else u }

/-- Take in a try that was made elsewhere, under a new number.  A zero loses its sign. -/
def takeIn (s : Store) (t : Try Unit) : Except Failure Store :=
  if !(holds t.key.index && holds t.key.step && holds t.attempts) then .error .integerTooWide
  else if (s.find? t.key).isSome then .error .duplicate
  else .ok {
    tries := s.tries ++ [{ t with id := s.issued, score := t.score.dropZeroSign }]
    issued := s.issued + 1 }

/-- A store that holds given tries. -/
def ofTries (tries : List (Try Unit)) : Except Failure Store := tries.foldlM takeIn {}

/-! ## Orders -/

/-- By start, then step. -/
def puzzleOrder (a b : Try Nat) : Ordering :=
  (compare a.start.wall b.start.wall).then (compare a.key.step b.key.step)

/-- By start, index and step; among equals by player and puzzle. -/
def competitionOrder (a b : Try Nat) : Ordering :=
  (compare a.start.wall b.start.wall).then <| (compare a.key.index b.key.index).then <|
    (compare a.key.step b.key.step).then <| (compare a.key.player b.key.player).then <|
      compare a.key.puzzle b.key.puzzle

/-- By index, step and start; among equals by puzzle. -/
def playerOrder (a b : Try Nat) : Ordering :=
  (compare a.key.index b.key.index).then <| (compare a.key.step b.key.step).then <|
    (compare a.start.wall b.start.wall).then <| compare a.key.puzzle b.key.puzzle

/-! ## Listings -/

/-- A player's tries on one puzzle. -/
def ofPuzzle (s : Store) (competition player puzzle : String) (index : Int) : List (Try Nat) :=
  (s.tries.filter fun t => t.key.competition = competition ∧ t.key.player = player ∧
    t.key.puzzle = puzzle ∧ t.key.index = index).mergeSort fun a b => (puzzleOrder a b).isLE

/-- The tries of a competition. -/
def ofCompetition (s : Store) (competition : String) : List (Try Nat) :=
  (s.tries.filter fun t => t.key.competition = competition).mergeSort
    fun a b => (competitionOrder a b).isLE

/-- A player's tries in a competition. -/
def ofPlayer (s : Store) (competition player : String) : List (Try Nat) :=
  (s.tries.filter fun t => t.key.competition = competition ∧ t.key.player = player).mergeSort
    fun a b => (playerOrder a b).isLE

/-- The first puzzle is open to all; any other one needs a finished try at the index before. -/
def unlocks (s : Store) (competition player : String) (index : Int) : Bool :=
  index = 0 || s.tries.any fun t =>
    t.key.competition = competition && t.key.player = player && t.key.index = index - 1 &&
      t.isFinished

end Store

end PuzzleContest
