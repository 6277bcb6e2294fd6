import PuzzleContest.Contest.State

/-!
# Opening a puzzle's first try

An opening is the attempt service's call for the first try of a puzzle, which makes it if there is
none.  It goes by atomic steps, between which other calls may take steps of their own: it waits for the
lock of the try's key, looks for the try under the lock, commits a new one, leaves the lock, and
announces what it made.  When another process made the try in between, or the lock is not to be had, it
reads the try that is there.

Main definitions:

- `Opening.Phase`: how far an opening is.
- `Opening.advance`: its next atomic step; each one brings it closer to its end (`rank_advance`).
- `Opening.run`: all steps of an opening while nobody else moves.
-/

namespace PuzzleContest

/-- The first try of a puzzle is asked for, with the level of a new one. -/
structure Opening where
  competition : String
  player : String
  puzzle : String
  index : Int
  level : String
deriving DecidableEq, Repr

namespace Opening

/-- The key of the try asked for. -/
def key (o : Opening) : Try.Key := ⟨o.competition, o.player, o.puzzle, o.index, firstStep⟩

/-- The try that a locked section came to, and whether it is new. -/
structure Found where
  entry : Try Nat
  made : Bool
deriving DecidableEq, Repr

/-- How far an opening is. -/
inductive Phase where
  /-- A session is opened to look up the competition. -/
  | arriving
  /-- The competition is read. -/
  | inquiring
  /-- A session is opened to look up the player. -/
  | approaching
  /-- The player is read. -/
  | greeting
  /-- The lock is asked for. -/
  | queueing (p : Player)
  /-- The lock is awaited; a step without it ends the wait. -/
  | waiting (p : Player)
  /-- A session is opened under the lock to look for the try. -/
  | looking (p : Player)
  /-- The try is read. -/
  | reading (p : Player)
  /-- A new try with this start is committed. -/
  | inserting (p : Player) (start : Moment)
  /-- A session is opened to look for the try that another process made. -/
  | returning (p : Player)
  /-- The try made by another process is read. -/
  | rereading (p : Player)
  /-- The session is closed. -/
  | closing (p : Player) (result : Except Failure Found)
  /-- The lock is released, and a new try announced. -/
  | leaving (p : Player) (result : Except Failure Found)
  /-- After a conflict a session is opened without the lock. -/
  | recovering
  /-- The try is read without the lock. -/
  | salvaging
  | done (result : Except Failure (Try Nat))

/-- How many steps are left at most. -/
def Phase.rank : Phase → Nat
  | arriving => 15
  | inquiring => 14
  | approaching => 13
  | greeting => 12
  | queueing _ => 11
  | waiting _ => 10
  | looking _ => 9
  | reading _ => 8
  | inserting _ _ => 7
  | returning _ => 6
  | rereading _ => 5
  | closing _ _ => 4
  | leaving _ _ => 3
  | recovering => 2
  | salvaging => 1
  | done _ => 0

/-- The result of an opening that is at its end. -/
def Phase.result? : Phase → Option (Except Failure (Try Nat))
  | done result => some result
  | _ => none

/-- Whether the lock is awaited. -/
def Phase.isWaiting : Phase → Bool
  | waiting _ => true
  | _ => false

/-- Whether the next step deals with the storage inside a session. -/
def Phase.usesStorage : Phase → Bool
  | inquiring | greeting | reading _ | inserting _ _ | rereading _ | salvaging => true
  | _ => false

/-- Open a session under the lock; whether the try is overlooked. -/
def look : Action Bool := do
  Contest.session
  Contest.glance

/-- Commit a new try; `none` if there is one of its key. -/
def insert (o : Opening) (start : Moment) : Action (Option (Try Nat)) := do
  Contest.commitFault
  Contest.checkInteger o.index
  fun c =>
    match c.store.add? o.key o.level start with
    | none => (.ok none, c)
    | some (t, store) => (.ok (some t), { c with store })

/-- After the session is opened: a try that is overlooked is made, any other one is read. -/
def afterLook (p : Player) : Except Failure Bool × Contest → Phase × Contest
  | (.ok false, c) => (.reading p, c)
  | (.ok true, c) => (.inserting p c.now, c)
  | (.error .duplicate, c) => (.returning p, c)
  | (.error e, c) => (.closing p (.error e), c)

/-- After the read: a try that is there is the result, and a missing one is made. -/
def afterRead (p : Player) : Except Failure (Option (Try Nat)) × Contest → Phase × Contest
  | (.ok (some t), c) => (.closing p (.ok ⟨t, false⟩), c)
  | (.ok none, c) => (.inserting p c.now, c)
  | (.error e, c) => (.closing p (.error e), c)

/-- After the commit: where another process was first, its try is looked for. -/
def afterInsert (p : Player) : Except Failure (Option (Try Nat)) × Contest → Phase × Contest
  | (.ok (some t), c) => (.closing p (.ok ⟨t, true⟩), c)
  | (.ok none, c) | (.error .duplicate, c) => (.returning p, c)
  | (.error e, c) => (.closing p (.error e), c)

/-- After the lock is released: a new try is announced, and a conflict leads to a last read. -/
def afterLeave (p : Player) (c : Contest) : Except Failure Found → Phase × Contest
  | .ok found =>
    (.done (.ok found.entry), if found.made then c.announce found.entry p .made else c)
  | .error e => if e.isConflict then (.recovering, c) else (.done (.error e), c)

/-- The next atomic step of an opening. -/
def advance (me : Holder) (o : Opening) (phase : Phase) (c : Contest) : Phase × Contest :=
  match phase with
  | .arriving =>
    match Contest.session c with
    | (.ok (), c) => (.inquiring, c)
    | (.error e, c) => (.done (.error e), c)
  | .inquiring =>
    match Contest.readCompetition o.competition c with
    | (.ok _, c) => (.approaching, c)
    | (.error e, c) => (.done (.error e), c)
  | .approaching =>
    match Contest.session c with
    | (.ok (), c) => (.greeting, c)
    | (.error e, c) => (.done (.error e), c)
  | .greeting =>
    match Contest.readPlayer o.player c with
    | (.ok p, c) => (.queueing p, c)
    | (.error e, c) => (.done (.error e), c)
  | .queueing p =>
    let c := c.enter o.key me
    (if c.locks.holds o.key me then .looking p else .waiting p, c)
  | .waiting p =>
    if c.locks.holds o.key me then (.looking p, c) else (.recovering, c.withdraw o.key me)
  | .looking p => afterLook p (look c)
  | .reading p => afterRead p (Contest.readTry o.key c)
  | .inserting p start => afterInsert p (o.insert start c)
  | .returning p =>
    match Contest.seek .conflict c with
    | (.ok (), c) => (.rereading p, c)
    | (.error e, c) => (.closing p (.error e), c)
  | .rereading p =>
    match Contest.demandTry o.key .conflict c with
    | (.ok t, c) => (.closing p (.ok ⟨t, false⟩), c)
    | (.error e, c) => (.closing p (.error e), c)
  | .closing p result => (.leaving p result, c)
  | .leaving p result => afterLeave p (c.leave o.key) result
  | .recovering =>
    match Contest.seek .conflict c with
    | (.ok (), c) => (.salvaging, c)
    | (.error e, c) => (.done (.error e), c)
  | .salvaging =>
    match Contest.demandTry o.key .conflict c with
    | (result, c) => (.done result, c)
  | .done result => (.done result, c)

/-- Every step brings an opening closer to its end. -/
theorem rank_advance (me : Holder) (o : Opening) {phase : Phase} (c : Contest)
    (h : phase.result? = none) : (advance me o phase c).1.rank < phase.rank := by
  cases phase with
  | looking p =>
    simp only [advance]
    unfold afterLook
    split <;> simp [Phase.rank]
  | reading p =>
    simp only [advance]
    unfold afterRead
    split <;> simp [Phase.rank]
  | inserting p start =>
    simp only [advance]
    unfold afterInsert
    split <;> simp [Phase.rank]
  | leaving p result =>
    cases result with
    | ok found => simp [advance, afterLeave, Phase.rank]
    | error e => cases he : e.isConflict <;> simp [advance, afterLeave, he, Phase.rank]
  | arriving | inquiring | approaching | greeting | queueing | waiting | returning | rereading |
    recovering =>
    simp only [advance]
    split <;> simp [Phase.rank]
  | closing | salvaging => simp [advance, Phase.rank]
  | done => simp [Phase.result?] at h

/-- The remaining steps of an opening while nobody else moves. -/
def runFrom (me : Holder) (o : Opening) (phase : Phase) (c : Contest) :
    Except Failure (Try Nat) × Contest :=
  match _h : phase.result? with
  | some result => (result, c)
  | none =>
    let next := advance me o phase c
    runFrom me o next.1 next.2
termination_by phase.rank
decreasing_by exact rank_advance me o c _h

/-- All steps of an opening while nobody else moves. -/
def run (me : Holder) (o : Opening) : Action (Try Nat) := runFrom me o .arriving

end Opening

end PuzzleContest
