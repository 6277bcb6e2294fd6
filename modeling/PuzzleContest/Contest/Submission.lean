import PuzzleContest.Contest.State
import PuzzleContest.Score

/-!
# Recording a submission

A submission is an answer to a try whose verdict is known, as the attempt service records it.  It
counts as one attempt; a correct one also finishes the try with its score and, on the first step, makes
the try of the second step in the same commit.  Like an opening it goes by atomic steps under the lock
of the try's key, and what it changed is announced when the lock is released.

Main definitions:

- `Try.answered?`: a try after one more answer.
- `Submission.Phase`, `Submission.advance`: how far a submission is, and its next atomic step
  (`rank_advance`).
- `Submission.run`: all steps of a submission while nobody else moves.
-/

namespace PuzzleContest

/-- A try after one more answer at some time; `none` if the score is too large. -/
def Try.answered? {ι : Type} (t : Try ι) (now : Moment) (answer : String) (correct : Bool) :
    Option (Try ι) :=
  let counted := { t with
    lastAnswer := some answer
    lastMove := some now
    attempts := t.attempts + 1 }
  if correct then
    (Score.score? t.level t.key.index t.key.step t.start now counted.attempts).map fun score =>
      { counted with finish := some now, score }
  else some counted

/-- An answer to a try, with its verdict. -/
structure Submission where
  competition : String
  player : String
  puzzle : String
  index : Int
  step : Int
  answer : String
  correct : Bool
deriving DecidableEq, Repr

/-- Refuse steps other than the first and the last; the refusal shows the step. -/
def checkStep (step : Int) : Action Unit :=
  if step = firstStep ∨ step = lastStep then pure ()
  else Action.fail (.ofTrouble (.showing step (.invalidStep step)))

namespace Submission

/-- The key of the try that is answered. -/
def key (s : Submission) : Try.Key := ⟨s.competition, s.player, s.puzzle, s.index, s.step⟩

/-- The key of the try of the last step. -/
def nextKey (s : Submission) : Try.Key := { s.key with step := lastStep }

/-- The changed try, and the new one if there is one. -/
structure Recorded where
  entry : Try Nat
  next : Option (Try Nat)
deriving DecidableEq, Repr

/-- How far a submission is. -/
inductive Phase where
  /-- The step is checked, and a session opened to look up the player. -/
  | arriving
  /-- The player is read. -/
  | greeting
  /-- The lock is asked for. -/
  | queueing (p : Player)
  /-- The lock is awaited; a step without it ends the wait. -/
  | waiting (p : Player)
  /-- A session is opened under the lock to look for the try. -/
  | looking (p : Player)
  /-- The try is read. -/
  | reading (p : Player)
  /-- The try of the last step is looked up. -/
  | peeking (p : Player) (entry : Try Nat) (now : Moment)
  /-- The changes are committed, with a new try if a start is given for one. -/
  | committing (p : Player) (entry : Try Nat) (next : Option Moment)
  /-- The session is closed. -/
  | closing (p : Player) (result : Except Failure Recorded)
  /-- The lock is released, and the changes are announced. -/
  | leaving (p : Player) (result : Except Failure Recorded)
  | done (result : Except Failure (Try Nat))

/-- How many steps are left at most. -/
def Phase.rank : Phase → Nat
  | arriving => 10
  | greeting => 9
  | queueing _ => 8
  | waiting _ => 7
  | looking _ => 6
  | reading _ => 5
  | peeking _ _ _ => 4
  | committing _ _ _ => 3
  | closing _ _ => 2
  | leaving _ _ => 1
  | done _ => 0

/-- The result of a submission that is at its end. -/
def Phase.result? : Phase → Option (Except Failure (Try Nat))
  | done result => some result
  | _ => none

/-- Whether the lock is awaited. -/
def Phase.isWaiting : Phase → Bool
  | waiting _ => true
  | _ => false

/-- Whether the next step deals with the storage inside a session. -/
def Phase.usesStorage : Phase → Bool
  | greeting | reading _ | peeking _ _ _ | committing _ _ _ => true
  | _ => false

/-- The beginning, before anything is read. -/
def arrive (s : Submission) : Action Unit := do
  checkStep s.step
  Contest.session

/-- Read the try, which must be there and unfinished, and answer it. -/
def judge (s : Submission) : Action (Try Nat) := do
  let t ← Contest.demandTry s.key .tryNotFound
  if t.isFinished then Action.refuse .alreadyFinished
  let now ← Action.view Contest.now
  match t.answered? now s.answer s.correct with
  | none => Action.fail .scoreTooLarge
  | some t => return t

/-- Look up the try of the last step.  Before the store is read, it takes in the changed try. -/
def peek (s : Submission) (entry : Try Nat) : Action (Option (Try Nat)) := do
  if ← Contest.glance then return none
  Contest.checkInteger entry.attempts
  Contest.readTry s.nextKey

/-- Commit the changed try together with the new one. -/
def commit (s : Submission) (entry : Try Nat) (next : Option Moment) : Action Recorded := do
  Contest.commitFault
  Contest.checkInteger entry.attempts
  fun c =>
    let changed := c.store.replace entry
    match next with
    | none => (.ok ⟨entry, none⟩, { c with store := changed })
    | some start =>
      match changed.add? s.nextKey entry.level start with
      | none => (.error .duplicate, c)
      | some (t, store) => (.ok ⟨entry, some t⟩, { c with store })

/-- After the try is read: a correct answer to the first step asks for the second one. -/
def afterJudge (s : Submission) (p : Player) :
    Except Failure (Try Nat) × Contest → Phase × Contest
  | (.ok t, c) =>
    (if s.correct ∧ s.step = firstStep then .peeking p t c.now else .committing p t none, c)
  | (.error e, c) => (.closing p (.error e), c)

/-- After the lock is released: the changed try is announced, then the new one. -/
def afterLeave (p : Player) (c : Contest) : Except Failure Recorded → Phase × Contest
  | .ok ⟨t, none⟩ => (.done (.ok t), c.announce t p .changed)
  | .ok ⟨t, some next⟩ => (.done (.ok t), (c.announce t p .changed).announce next p .made)
  | .error e => (.done (.error e), c)

/-- The next atomic step of a submission. -/
def advance (me : Holder) (s : Submission) (phase : Phase) (c : Contest) : Phase × Contest :=
  match phase with
  | .arriving =>
    match s.arrive c with
    | (.ok (), c) => (.greeting, c)
    | (.error e, c) => (.done (.error e), c)
  | .greeting =>
    match Contest.readPlayer s.player c with
    | (.ok p, c) => (.queueing p, c)
    | (.error e, c) => (.done (.error e), c)
  | .queueing p =>
    let c := c.enter s.key me
    (if c.locks.holds s.key me then .looking p else .waiting p, c)
  | .waiting p =>
    if c.locks.holds s.key me then (.looking p, c)
    else (.done (.error (.refused .lockTimeout)), c.withdraw s.key me)
  | .looking p =>
    match Contest.seek .tryNotFound c with
    | (.ok (), c) => (.reading p, c)
    | (.error e, c) => (.closing p (.error e), c)
  | .reading p => s.afterJudge p (s.judge c)
  | .peeking p t now =>
    match s.peek t c with
    | (.ok (some _), c) => (.committing p t none, c)
    | (.ok none, c) => (.committing p t (some now), c)
    | (.error e, c) => (.closing p (.error e), c)
  | .committing p t next =>
    match s.commit t next c with
    | (result, c) => (.closing p result, c)
  | .closing p result => (.leaving p result, c)
  | .leaving p result => afterLeave p (c.leave s.key) result
  | .done result => (.done result, c)

/-- Every step brings a submission closer to its end. -/
theorem rank_advance (me : Holder) (s : Submission) {phase : Phase} (c : Contest)
    (h : phase.result? = none) : (advance me s phase c).1.rank < phase.rank := by
  cases phase with
  | reading p =>
    simp only [advance]
    unfold afterJudge
    split
    · split <;> simp [Phase.rank]
    · simp [Phase.rank]
  | leaving p result =>
    simp only [advance]
    unfold afterLeave
    split <;> simp [Phase.rank]
  | arriving | greeting | queueing | waiting | looking | peeking =>
    simp only [advance]
    split <;> simp [Phase.rank]
  | committing | closing => simp [advance, Phase.rank]
  | done => simp [Phase.result?] at h

/-- The remaining steps of a submission while nobody else moves. -/
def runFrom (me : Holder) (s : Submission) (phase : Phase) (c : Contest) :
    Except Failure (Try Nat) × Contest :=
  match _h : phase.result? with
  | some result => (result, c)
  | none =>
    let next := advance me s phase c
    runFrom me s next.1 next.2
termination_by phase.rank
decreasing_by exact rank_advance me s c _h

/-- All steps of a submission while nobody else moves. -/
def run (me : Holder) (s : Submission) : Action (Try Nat) := runFrom me s .arriving

end Submission

end PuzzleContest
