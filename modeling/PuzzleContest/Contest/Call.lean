import PuzzleContest.Contest.Play

/-!
# Calls

A call is one thing that a player asks of the services of a contest: to open or answer a puzzle, or to
see something.

Main definitions:

- `Query`: a call that only reads, with a part before its read and the read itself.
- `Call`, `Answer`: what is asked, and what comes of it.
- `Call.run`: a call while nobody else moves.
-/

namespace PuzzleContest

/-- What a player wants to see of a contest. -/
inductive Query where
  | tryOf (key : Try.Key)
  | puzzleTries (competition player puzzle : String) (index : Int)
  | competitionTries (competition : String)
  | playerTries (competition player : String)
  | mayView (competition player : String) (index : Int)
  | player (id : String)
  | competition (id : String)
deriving DecidableEq, Repr

/-- What a player asks of a contest. -/
inductive Call where
  | trigger (o : Opening)
  | submit (s : Submission)
  | visit (o : Opening)
  | answer (a : Attempt)
  | ask (q : Query)
deriving DecidableEq, Repr

/-- What comes of a call. -/
inductive Answer where
  | entry (t : Try Nat)
  | entries (ts : List (Try Nat))
  | snapshots (ss : List (Snapshot Nat))
  | document (value : Json)
  | verdict (v : Verdict)
  | permission (granted : Bool)
  | player (p : Player)
  | competition (x : Competition)
deriving Repr

namespace Action

/-- Change the result of an action. -/
def map {α β : Type} (f : α → β) (x : Action α) : Action β := fun c => ((x c).1.map f, (x c).2)

end Action

/-- What comes before the read: its session is opened. -/
def Query.prepare (q : Query) : Action Unit :=
  match q with
  | .tryOf key => Contest.seekTry key
  | .mayView _ _ index => Contest.seekView index
  | _ => Contest.session

/-- The read. -/
def Query.read (q : Query) : Action Answer :=
  match q with
  | .tryOf key => (Contest.demandTry key .tryNotFound).map .entry
  | .puzzleTries x p puzzle index => (Contest.readPuzzleTries x p puzzle index).map .entries
  | .competitionTries x => (Contest.readCompetitionTries x).map .snapshots
  | .playerTries x p => (Contest.readPlayerTries x p).map .snapshots
  | .mayView x p index => (Contest.readView x p index).map .permission
  | .player id => (Contest.readPlayer id).map .player
  | .competition id => (Contest.readCompetition id).map .competition

/-- A query while nobody else moves. -/
def Query.run (q : Query) : Action Answer := do
  q.prepare
  q.read

/-- A call of a caller while nobody else moves. -/
def Call.run (me : Holder) (call : Call) : Action Answer :=
  match call with
  | .trigger o => (o.run me).map .entry
  | .submit s => (s.run me).map .entry
  | .visit o => (o.play me).map .document
  | .answer a => (a.play me).map .verdict
  | .ask q => q.run

end PuzzleContest
