import PuzzleContest.Contest.Call

/-!
# Calls together

Calls may run together: each goes by its atomic steps, and the steps of different calls alternate.
The storage serves one session at a time, first come, first served.  A call that asks for the
storage or for a busy lock lets the others go first; otherwise it goes on.  When no call can go on,
the storage serves the first that asked for it; when none asks, the first that awaits a lock gives
up.  Where nobody may wait for a lock, a call that finds it busy gives up at once.

Main definitions:

- `Process`: a call under way; `Process.advance` is its next atomic step (`rank_advance`).
- `Process.gather`: calls together.
-/

namespace PuzzleContest

/-- What a player does after the gates are passed. -/
inductive Venture where
  | visit (o : Opening)
  | answer (a : Attempt)
deriving DecidableEq, Repr

namespace Venture

/-- The competition that is entered. -/
def competition : Venture → String
  | visit o => o.competition
  | answer a => a.competition

/-- Who enters. -/
def player : Venture → String
  | visit o => o.player
  | answer a => a.player

/-- The index of the puzzle. -/
def index : Venture → Int
  | visit o => o.index
  | answer a => a.index

end Venture

/-- A call under way. -/
inductive Process where
  /-- Nothing has been done yet. -/
  | waking (call : Call)
  /-- The session of a query is open. -/
  | reading (q : Query)
  /-- It is read whether the puzzle is visible. -/
  | viewing (v : Venture)
  /-- A session is opened to look up the competition. -/
  | entering (v : Venture)
  /-- The competition is read. -/
  | inquiring (v : Venture)
  /-- A session is opened to look for the try that is to be answered. -/
  | seeking (a : Attempt) (x : Competition)
  /-- The try that is to be answered is read. -/
  | consulting (a : Attempt) (x : Competition)
  | triggering (o : Opening) (phase : Opening.Phase)
  | submitting (s : Submission) (phase : Submission.Phase)
  /-- A puzzle of a competition is opened, up to the first try. -/
  | opening (o : Opening) (x : Competition) (phase : Opening.Phase)
  | fetching (o : Opening) (x : Competition)
  | checking (a : Attempt) (x : Competition)
  | recording (s : Submission) (phase : Submission.Phase)
  | done (result : Except Failure Answer)

namespace Process

/-- How many steps are left at most. -/
def rank : Process → Nat
  | waking _ => 21
  | viewing _ => 20
  | entering _ => 19
  | inquiring _ => 18
  | seeking _ _ => 15
  | consulting _ _ => 14
  | checking _ _ => 13
  | triggering _ phase => phase.rank + 2
  | submitting _ phase => phase.rank + 2
  | opening _ _ phase => phase.rank + 2
  | recording _ phase => phase.rank + 2
  | reading _ => 1
  | fetching _ _ => 1
  | done _ => 0

/-- Whether a call awaits a lock that another one holds. -/
def isBlocked (me : Holder) (c : Contest) : Process → Bool
  | triggering o phase | opening o _ phase => phase.isWaiting && !c.locks.holds o.key me
  | submitting s phase | recording s phase => phase.isWaiting && !c.locks.holds s.key me
  | _ => false

/-- Whether the next step of a call deals with the storage inside a session. -/
def usesStorage : Process → Bool
  | reading _ | viewing _ | inquiring _ | consulting _ _ => true
  | triggering _ phase | opening _ _ phase => phase.usesStorage
  | submitting _ phase | recording _ phase => phase.usesStorage
  | _ => false

/-- The result of a call that is at its end. -/
def result? : Process → Option (Except Failure Answer)
  | done result => some result
  | _ => none

/-- Go on with the result of an action, unless it failed. -/
def follow {α : Type} (next : α → Process) (x : Except Failure α × Contest) : Process × Contest :=
  match x with
  | (.ok a, c) => (next a, c)
  | (.error e, c) => (done (.error e), c)

/-- Set out for the gates; the first puzzle is visible without a look. -/
def setOut (v : Venture) (c : Contest) : Process × Contest :=
  if v.index = 0 then (entering v, c) else follow (fun _ => viewing v) (Contest.session c)

/-- The first step of a call. -/
def wake (call : Call) (c : Contest) : Process × Contest :=
  match call with
  | .trigger o => (triggering o .arriving, c)
  | .submit s => (submitting s .arriving, c)
  | .visit o => setOut (.visit o) c
  | .answer a =>
    match checkStep a.step c with
    | (.ok (), c) => setOut (.answer a) c
    | (.error e, c) => (done (.error e), c)
  | .ask q => follow (fun _ => reading q) (q.prepare c)

/-- Past the gate of the competition. -/
def enter (v : Venture) (x : Competition) : Process :=
  match v with
  | .visit o => opening o x .arriving
  | .answer a => seeking a x

/-- A step of an opening, or its end. -/
def stepOpening (me : Holder) (o : Opening) (phase : Opening.Phase) (c : Contest)
    (going : Opening.Phase → Process) (arrived : Except Failure (Try Nat) → Process) :
    Process × Contest :=
  match phase.result? with
  | some result => (arrived result, c)
  | none => let next := o.advance me phase c; (going next.1, next.2)

/-- A step of a submission, or its end. -/
def stepSubmission (me : Holder) (s : Submission) (phase : Submission.Phase) (c : Contest)
    (going : Submission.Phase → Process) (arrived : Except Failure (Try Nat) → Process) :
    Process × Contest :=
  match phase.result? with
  | some result => (arrived result, c)
  | none => let next := s.advance me phase c; (going next.1, next.2)

/-- The next atomic step of a call. -/
def advance (me : Holder) (p : Process) (c : Contest) : Process × Contest :=
  match p with
  | waking call => wake call c
  | reading q => let result := q.read c; (done result.1, result.2)
  | viewing v =>
    follow (fun _ => entering v) (Contest.readVisible v.competition v.player v.index c)
  | entering v => follow (fun _ => inquiring v) (Contest.session c)
  | inquiring v => follow (enter v) (Contest.readCompetition v.competition c)
  | seeking a x => follow (fun _ => consulting a x) (Contest.seekTry a.key c)
  | consulting a x => follow (fun _ => checking a x) (a.consult c)
  | triggering o phase =>
    stepOpening me o phase c (triggering o) fun result => done (result.map .entry)
  | submitting s phase =>
    stepSubmission me s phase c (submitting s) fun result => done (result.map .entry)
  | opening o x phase =>
    stepOpening me o phase c (opening o x) fun
      | .ok _ => fetching o x
      | .error e => done (.error e)
  | fetching o x => let result := o.fetch x c; (done (result.1.map .document), result.2)
  | checking a x => follow (fun correct => recording (a.judged correct) .arriving) (a.check x c)
  | recording s phase =>
    stepSubmission me s phase c (recording s) fun result =>
      done (result.map fun t => .verdict ⟨s.correct, t⟩)
  | done result => (done result, c)

theorem rank_follow {α : Type} {next : α → Process} {x : Except Failure α × Contest} {n : Nat}
    (hn : 0 < n) (h : ∀ a, (next a).rank < n) : (follow next x).1.rank < n := by
  unfold follow
  split
  · exact h _
  · exact hn

theorem rank_setOut (v : Venture) (c : Contest) : (setOut v c).1.rank < 21 := by
  unfold setOut
  split
  · simp [rank]
  · exact rank_follow (by omega) fun _ => by simp [rank]

theorem rank_stepOpening (me : Holder) (o : Opening) (phase : Opening.Phase) (c : Contest)
    {going : Opening.Phase → Process} {arrived : Except Failure (Try Nat) → Process}
    (hg : ∀ ph, (going ph).rank = ph.rank + 2) (ha : ∀ r, (arrived r).rank ≤ 1) :
    (stepOpening me o phase c going arrived).1.rank < phase.rank + 2 := by
  unfold stepOpening
  split
  · have := ha (by assumption); simp only; omega
  · rename_i h
    have := Opening.rank_advance me o c h
    simp only [hg]; omega

theorem rank_stepSubmission (me : Holder) (s : Submission) (phase : Submission.Phase) (c : Contest)
    {going : Submission.Phase → Process} {arrived : Except Failure (Try Nat) → Process}
    (hg : ∀ ph, (going ph).rank = ph.rank + 2) (ha : ∀ r, (arrived r).rank ≤ 1) :
    (stepSubmission me s phase c going arrived).1.rank < phase.rank + 2 := by
  unfold stepSubmission
  split
  · have := ha (by assumption); simp only; omega
  · rename_i h
    have := Submission.rank_advance me s c h
    simp only [hg]; omega

/-- Every step brings a call closer to its end. -/
theorem rank_advance (me : Holder) {p : Process} (c : Contest) (h : p.result? = none) :
    (p.advance me c).1.rank < p.rank := by
  cases p with
  | waking call =>
    simp only [advance, wake]
    split
    · simp [rank, Opening.Phase.rank]
    · simp [rank, Submission.Phase.rank]
    · exact rank_setOut _ _
    · split
      · exact rank_setOut _ _
      · simp [rank]
    · exact rank_follow (by simp [rank]) fun _ => by simp [rank]
  | triggering o phase =>
    exact rank_stepOpening me o phase c (fun _ => rfl) fun r => by simp [rank]
  | submitting s phase =>
    exact rank_stepSubmission me s phase c (fun _ => rfl) fun r => by simp [rank]
  | opening o x phase =>
    exact rank_stepOpening me o phase c (fun _ => rfl) fun r => by cases r <;> simp [rank]
  | recording s phase =>
    exact rank_stepSubmission me s phase c (fun _ => rfl) fun r => by simp [rank]
  | inquiring v =>
    exact rank_follow (by simp [rank]) fun _ => by
      cases v <;> simp [enter, rank, Opening.Phase.rank]
  | viewing | entering | seeking | consulting | checking =>
    exact rank_follow (by simp [rank]) fun _ => by simp [rank, Submission.Phase.rank]
  | reading | fetching => simp [advance, rank]
  | done => simp [result?] at h

/-! ## Calls together -/

/-- A call under way and its number. -/
abbrev Numbered := Nat × Process

/-- The steps that are left of all calls. -/
def work : List Numbered → Nat
  | [] => 0
  | p :: rest => p.2.rank + work rest

@[simp]
theorem work_append (ps qs : List Numbered) : work (ps ++ qs) = work ps + work qs := by
  induction ps with
  | nil => simp [work]
  | cons p rest ih => simp [work, ih, Nat.add_assoc]

/-- Whether a call is not at its end. -/
def isLeft (p : Numbered) : Bool := p.2.result?.isNone

/-- Whether a call can go on without the storage: it awaits no lock, unless nobody may wait. -/
def isFree (c : Contest) (p : Numbered) : Bool :=
  isLeft p && !p.2.usesStorage &&
    (decide (c.lockTimeout ≤ 0) || !p.2.isBlocked (.caller p.1) c)

/-- Whether a call asks for the storage. -/
def asksStorage (p : Numbered) : Bool := isLeft p && p.2.usesStorage

/-- The calls before the first one that is wanted, that one, and those after it. -/
def splitFirst? (wanted : Numbered → Bool) :
    List Numbered → Option (List Numbered × Numbered × List Numbered)
  | [] => none
  | p :: rest =>
    if wanted p then some ([], p, rest)
    else (splitFirst? wanted rest).map fun (before, q, after) => (p :: before, q, after)

/-- The call that takes the next step: the first that is free, or else the first that asks for the
storage, or else the first that is left. -/
def choose? (c : Contest) (ps : List Numbered) :
    Option (List Numbered × Numbered × List Numbered) :=
  ((splitFirst? (isFree c) ps).or (splitFirst? asksStorage ps)).or (splitFirst? isLeft ps)

theorem splitFirst?_spec {wanted : Numbered → Bool} {ps before after : List Numbered} {p : Numbered}
    (h : splitFirst? wanted ps = some (before, p, after)) :
    ps = before ++ p :: after ∧ wanted p = true := by
  induction ps generalizing before with
  | nil => simp [splitFirst?] at h
  | cons q rest ih =>
    by_cases hq : wanted q = true
    · simp only [splitFirst?, hq, if_true, Option.some.injEq, Prod.mk.injEq] at h
      obtain ⟨rfl, rfl, rfl⟩ := h
      exact ⟨rfl, hq⟩
    · simp only [splitFirst?, hq, Bool.false_eq_true, if_false, Option.map_eq_some_iff] at h
      obtain ⟨⟨b, q', a⟩, hrest, heq⟩ := h
      simp only [Prod.mk.injEq] at heq
      obtain ⟨rfl, rfl, rfl⟩ := heq
      obtain ⟨rfl, hp⟩ := ih hrest
      exact ⟨rfl, hp⟩

theorem choose?_spec {c : Contest} {ps before after : List Numbered} {p : Numbered}
    (h : choose? c ps = some (before, p, after)) :
    ps = before ++ p :: after ∧ p.2.result? = none := by
  simp only [choose?, Option.or_eq_some_iff] at h
  rcases h with (h | ⟨_, h⟩) | ⟨_, h⟩
  all_goals
    have := splitFirst?_spec h
    simp only [isFree, asksStorage, isLeft, Bool.and_eq_true, Option.isNone_iff_eq_none] at this
    simp [this]

/-- Whether a call keeps its turn after a step: it is free, or its dealings with the storage are not
over. -/
def keepsTurn (c : Contest) (n : Nat) (before after : Process) : Bool :=
  isFree c (n, after) || (before.usesStorage && after.usesStorage)

/-- Let calls take steps until all are at their end.  A call that keeps its turn stays in front, and
any other one gets in line. -/
def gather (ps : List Numbered) (c : Contest) : List Numbered × Contest :=
  match _h : choose? c ps with
  | none => (ps, c)
  | some (before, p, after) =>
    let next := p.2.advance (.caller p.1) c
    if keepsTurn next.2 p.1 p.2 next.1 then gather ((p.1, next.1) :: before ++ after) next.2
    else gather (before ++ after ++ [(p.1, next.1)]) next.2
termination_by work ps
decreasing_by
  all_goals
    obtain ⟨rfl, hp⟩ := choose?_spec _h
    have := rank_advance (.caller p.1) c hp
    simp only [work_append, work, List.cons_append]
    omega

end Process

/-- Run calls together; what came of them, in their order. -/
def Call.runAll (calls : List Call) (c : Contest) : List (Except Failure Answer) × Contest :=
  let ended := Process.gather (calls.zipIdx.map fun (call, n) => (n, .waking call)) c
  ((ended.1.mergeSort fun p q => p.1 ≤ q.1).filterMap fun p => p.2.result?, ended.2)

end PuzzleContest
