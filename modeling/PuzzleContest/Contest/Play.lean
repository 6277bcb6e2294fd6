import PuzzleContest.Catalog
import PuzzleContest.Contest.Opening
import PuzzleContest.Contest.Query

/-!
# Playing puzzles

This is the submission service: a player opens a puzzle to get its input and answers it step by step.
An answer passes the gates of visibility, of the finished try and of the cooldown before the catalog is
asked, and only a verdict of the catalog changes the try.

Main definitions:

- `Opening.play`: open a puzzle and fetch its input.
- `Attempt.play`: answer a step of a puzzle.
-/

namespace PuzzleContest

namespace Contest

/-- Read whether a puzzle is visible, and refuse one that the player may not see yet. -/
def readVisible (competition player : String) (index : Int) : Action Unit := do
  if ← readView competition player index then return () else Action.refuse .puzzleLocked

/-- Refuse a puzzle that the player may not see yet. -/
def ensureVisible (competition player : String) (index : Int) : Action Unit := do
  seekView index
  readVisible competition player index

/-- Put a question to the catalog and note the requests made for it. -/
def ask {α : Type} (question : Contest → Catalog.Exchange α) : Action α := fun c =>
  let exchange := question c
  (exchange.result.mapError Failure.ofTrouble,
    { c with requests := c.requests ++ exchange.requests })

/-- The address of a competition's catalog. -/
def addressOf (x : Competition) : Action String :=
  match x.address with
  | some address => pure address
  | none => Action.refuse .catalogNotFound

end Contest

namespace Opening

/-- The gates before a puzzle is opened. -/
def gate (o : Opening) : Action Competition := do
  Contest.ensureVisible o.competition o.player o.index
  Contest.findCompetition o.competition

/-- Fetch the input of the puzzle. -/
def fetch (o : Opening) (x : Competition) : Action Json := do
  let address ← Contest.addressOf x
  Contest.ask fun c =>
    Catalog.fetchInput c.catalog c.client address x.theme o.puzzle o.player

/-- Open a puzzle: make sure that its first try exists, then fetch its input. -/
def play (me : Holder) (o : Opening) : Action Json := do
  let x ← o.gate
  let _ ← run me o
  o.fetch x

/-- The steps of an opening whose level cannot be stored: where a try would be made, nothing is. -/
def runUnstorable (me : Holder) (o : Opening) : Action (Try Nat) := fun c =>
  let x := run me o c
  if x.2.store.issued = c.store.issued then x
  else (.error .textUnpaired, { c with schedule := x.2.schedule })

/-- Open a puzzle with a level that cannot be stored, which works if its first try exists. -/
def playUnstorable (me : Holder) (o : Opening) : Action Json := do
  let x ← o.gate
  let _ ← runUnstorable me o
  o.fetch x

end Opening

/-- An answer to a step of a puzzle. -/
structure Attempt where
  competition : String
  player : String
  puzzle : String
  index : Int
  step : Int
  answer : String
deriving DecidableEq, Repr

/-- The verdict on an answer, and the try it went to. -/
structure Verdict where
  correct : Bool
  entry : Try Nat
deriving DecidableEq, Repr

namespace Attempt

/-- The key of the try that is answered. -/
def key (a : Attempt) : Try.Key := ⟨a.competition, a.player, a.puzzle, a.index, a.step⟩

/-- The submission of an answer with its verdict. -/
def judged (a : Attempt) (correct : Bool) : Submission :=
  ⟨a.competition, a.player, a.puzzle, a.index, a.step, a.answer, correct⟩

/-- Refuse an answer to a finished try, and one that comes before the end of a cooldown. -/
def checkTry (t : Try Nat) : Action Unit := fun c =>
  if t.isFinished then (.error (.refused .alreadyFinished), c)
  else
    match Cooldown.gate c.plan t.attempts t.lastMove c.now with
    | none => (.error .pastCalendar, c)
    | some (.blocked remaining) => (.error (.refused (.rateLimited remaining)), c)
    | some .clear => (.ok (), c)

/-- Read the try, which must be there and open to an answer. -/
def consult (a : Attempt) : Action Unit := do
  let t ← Contest.demandTry a.key .tryNotFound
  checkTry t

/-- The gates before the catalog is asked. -/
def gate (a : Attempt) : Action Competition := do
  checkStep a.step
  Contest.ensureVisible a.competition a.player a.index
  let x ← Contest.findCompetition a.competition
  Contest.seekTry a.key
  a.consult
  return x

/-- Ask the catalog for its verdict. -/
def check (a : Attempt) (x : Competition) : Action Bool := do
  let address ← Contest.addressOf x
  Contest.ask fun c =>
    Catalog.check c.catalog c.client address x.theme a.puzzle a.step a.player a.answer

/-- Answer a step of a puzzle. -/
def play (me : Holder) (a : Attempt) : Action Verdict := do
  let x ← a.gate
  let correct ← a.check x
  let t ← (a.judged correct).run me
  return ⟨correct, t⟩

/-- Answer a step of a puzzle with a text that cannot be sent: the catalog is not asked. -/
def playUnsendable (a : Attempt) : Action Verdict := do
  let x ← a.gate
  let address ← Contest.addressOf x
  if address = "" then Action.refuse .catalogWithoutAddress else Action.fail .textUnpaired

end Attempt

end PuzzleContest
