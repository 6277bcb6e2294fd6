import PuzzleContest.Contest.Directory
import PuzzleContest.Contest.Failure
import PuzzleContest.Contest.Store
import PuzzleContest.Cooldown
import PuzzleContest.Lock.Registry

/-!
# The state of a contest

A contest is what the attempt service and the submission service work on.  It holds the store of tries,
the locks on their keys, a clock, and what has gone out: the announcements and the requests to the
catalog.  An action reads and changes the contest and has a result or fails; a failed action may still
have used up scheduled faults and sent requests.

Main definitions:

- `Contest`: the state.
- `Action`: a computation on it.
- `Contest.session`, `Contest.glance`, `Contest.commitFault`: the occasions on which the storage may
  meet a fault.
- `Contest.readPlayer`, `Contest.readCompetition`, `Contest.readTry`: reads in an open session.
- `Contest.findCompetition`: a whole read.
-/

namespace PuzzleContest

/-- Who holds or awaits the lock of a key. -/
inductive Holder where
  | named (name : String)
  /-- One of the calls that run together. -/
  | caller (n : Nat)
deriving DecidableEq, Repr

/-- The state of a contest. -/
structure Contest where
  directory : Directory
  plan : Cooldown.Plan
  /-- The clock, a reading of universal time. -/
  now : Moment
  /-- How the catalog replies. -/
  catalog : Catalog.Request → Catalog.Reply
  /-- How the catalog is asked. -/
  client : Catalog.Client
  /-- The nanoseconds for which a call waits for a lock. -/
  lockTimeout : Int
  store : Store := {}
  locks : Lock.Registry Try.Key Holder := {}
  schedule : Schedule := {}
  /-- The announcements made, in order. -/
  outbox : List (Announcement Nat) := []
  /-- The requests sent to the catalog, in order. -/
  requests : List Catalog.Request := []

/-- A computation on a contest that has a result or fails. -/
def Action (α : Type) : Type := Contest → Except Failure α × Contest

namespace Action

/-- Go on with the result of an action, unless it failed. -/
def andThen {α β : Type} (x : Action α) (f : α → Action β) : Action β := fun c =>
  match x c with
  | (.ok a, c) => f a c
  | (.error e, c) => (.error e, c)

instance : Monad Action where
  pure a := fun c => (.ok a, c)
  bind := andThen

/-- The action that fails. -/
def fail {α : Type} (e : Failure) : Action α := fun c => (.error e, c)

/-- The action that is refused. -/
def refuse {α : Type} (r : Refusal) : Action α := fail (.refused r)

/-- A value of the contest. -/
def view {α : Type} (f : Contest → α) : Action α := fun c => (.ok (f c), c)

theorem pure_apply {α : Type} (a : α) (c : Contest) : (pure a : Action α) c = (.ok a, c) := rfl

theorem bind_apply {α β : Type} (x : Action α) (f : α → Action β) (c : Contest) :
    (x >>= f) c = match x c with
      | (.ok a, c) => f a c
      | (.error e, c) => (.error e, c) := rfl

end Action

namespace Contest

/-! ## Dealings with the storage -/

/-- What comes of an occasion whose fault, if any, is known. -/
def meet : Option Fault → Except Failure Unit
  | none => .ok ()
  | some fault => .error fault.failure

/-- Open a session. -/
def session : Action Unit := fun c =>
  match c.schedule.sessions with
  | [] => (.ok (), c)
  | head :: sessions => (meet head, { c with schedule.sessions := sessions })

/-- Whether the storage is in order for a look-up. -/
def findFault : Action Unit := fun c =>
  match c.schedule.finds with
  | [] => (.ok (), c)
  | head :: finds => (meet head, { c with schedule.finds := finds })

/-- Whether a look-up overlooks the try. -/
def overlooks : Action Bool := fun c =>
  match c.schedule.hidden with
  | [] => (.ok false, c)
  | head :: hidden => (.ok head, { c with schedule.hidden := hidden })

/-- Refuse integers that the store cannot hold. -/
def checkInteger (n : Int) : Action Unit :=
  if Store.holds n then pure () else Action.fail .integerTooWide

/-- What a look-up meets before anything is read: a fault, or that it overlooks the try. -/
def glance : Action Bool := do
  findFault
  overlooks

/-- Read the try of a key. -/
def readTry (key : Try.Key) : Action (Option (Try Nat)) := do
  checkInteger key.index
  Action.view fun c => c.store.find? key

/-- Look up the try of a key. -/
def lookup (key : Try.Key) : Action (Option (Try Nat)) := do
  if ← glance then return none
  readTry key

/-- Read the try of a key, which should be there. -/
def demandTry (key : Try.Key) (missing : Refusal) : Action (Try Nat) := do
  match ← readTry key with
  | some t => return t
  | none => Action.refuse missing

/-- Open a session to look for a try; one that is overlooked is missing. -/
def seek (missing : Refusal) : Action Unit := do
  session
  if ← glance then Action.refuse missing

/-- Read a player. -/
def readPlayer (id : String) : Action Player := do
  match ← Action.view fun c => c.directory.player? id with
  | some p => return p
  | none => Action.refuse .userNotFound

/-- Read a competition. -/
def readCompetition (id : String) : Action Competition := do
  match ← Action.view fun c => c.directory.competition? id with
  | some x => return x
  | none => Action.refuse .competitionNotFound

/-- Whether the storage is in order for a commit. -/
def commitFault : Action Unit := fun c =>
  match c.schedule.commits with
  | [] => (.ok (), c)
  | head :: commits => (meet head, { c with schedule.commits := commits })

/-! ## A whole read -/

/-- Look up a competition. -/
def findCompetition (id : String) : Action Competition := do
  session
  readCompetition id

/-! ## Locks and announcements -/

/-- A call asks for the lock of a key. -/
def enter (c : Contest) (key : Try.Key) (me : Holder) : Contest :=
  { c with locks := c.locks.enter key me }

/-- The holder of a key leaves. -/
def leave (c : Contest) (key : Try.Key) : Contest := { c with locks := c.locks.leave key }

/-- A call stops waiting for the lock of a key. -/
def withdraw (c : Contest) (key : Try.Key) (me : Holder) : Contest :=
  { c with locks := c.locks.withdraw key me }

/-- Announce the news of a try. -/
def announce (c : Contest) (t : Try Nat) (p : Player) (news : News) : Contest :=
  { c with outbox := c.outbox ++ [⟨t.key.competition, ⟨t, some p⟩, news⟩] }

/-! ## The clock and the locks from outside -/

/-- Move the clock. -/
def advance (micros : Int) : Action Moment := fun c =>
  match Cooldown.checkDuration micros with
  | .error (.tooLong days) => (.error (.durationTooLong days), c)
  | .error _ => (.error .pastCalendar, c)
  | .ok () =>
    match c.now.shift? micros with
    | none => (.error .pastCalendar, c)
    | some now => (.ok now, { c with now })

/-- Take the lock of a key under a name, without waiting; the number of keys in use. -/
def hold (name : String) (key : Try.Key) : Action Nat := fun c =>
  match c.locks.find? key with
  | some _ => (.error (.refused .lockTimeout), c)
  | none =>
    let c := c.enter key (.named name)
    (.ok c.locks.size, c)

/-- Release the lock held under a name; the number of keys in use. -/
def unhold (name : String) : Action Nat := fun c =>
  match c.locks.entries.find? fun e => e.2.holder = some (.named name) with
  | none => (.ok c.locks.size, c)
  | some e =>
    let c := c.leave e.1
    (.ok c.locks.size, c)

end Contest

end PuzzleContest
