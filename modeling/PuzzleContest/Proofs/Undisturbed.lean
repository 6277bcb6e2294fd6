import PuzzleContest.Proofs.Gate
import PuzzleContest.Proofs.Lodging
import PuzzleContest.Proofs.Score

/-!
# Submissions that nothing disturbs

Where no fault is to come, nobody uses a lock and the attempts can be counted further, a submission to
an unfinished try of a known player comes to a result.

Main results:

- `Contest.Undisturbed`: nothing stands in the way of a call.
- `Action.IsStill`: a read that changes nothing at all where no fault is to come.
- `Submission.Phase.Smooth`: what a phase needs for the rest of the run to go well.
- `Submission.Phase.Smooth.advance`: every step keeps it.
- `Submission.run_eq_ok`: an undisturbed submission returns the answered try.
-/

namespace PuzzleContest

namespace Contest

variable {c : Contest}

/-- Nothing stands in the way of a call: no fault is to come, nobody uses a lock, and of every try one
more attempt can be stored. -/
structure Undisturbed (c : Contest) : Prop where
  schedule_eq : c.schedule = {}
  entries_eq : c.locks.entries = []
  room : ∀ t ∈ c.store.tries, Store.holds (t.attempts + 1) = true

instance (c : Contest) : Decidable c.Undisturbed :=
  decidable_of_iff (c.schedule = {} ∧ c.locks.entries = [] ∧
      ∀ t ∈ c.store.tries, Store.holds (t.attempts + 1) = true)
    ⟨fun h => ⟨h.1, h.2.1, h.2.2⟩, fun h => ⟨h.schedule_eq, h.entries_eq, h.room⟩⟩

theorem session_of_schedule (h : c.schedule = {}) : session c = (.ok (), c) := by
  simp [session, h]

theorem glance_of_schedule (h : c.schedule = {}) : glance c = (.ok false, c) := by
  simp [glance, Action.bind_apply, findFault, overlooks, h]

theorem seek_of_schedule (h : c.schedule = {}) (missing : Refusal) : seek missing c = (.ok (), c) := by
  simp [seek, Action.bind_apply, session_of_schedule h, glance_of_schedule h, Action.pure_apply]

theorem commitFault_of_schedule (h : c.schedule = {}) : commitFault c = (.ok (), c) := by
  simp [commitFault, h]

theorem checkInteger_of_holds {n : Int} (h : Store.holds n = true) :
    checkInteger n c = (.ok (), c) := by
  simp [checkInteger, h, Action.pure_apply]

/-! ## Reads that meet no fault -/

theorem findCompetition_of_competition? (h : c.schedule = {}) {id : String} {x : Competition}
    (hx : c.directory.competition? id = some x) : findCompetition id c = (.ok x, c) := by
  simp [findCompetition, Action.bind_apply, session_of_schedule h,
    readCompetition_of_competition? hx]

/-- A visible puzzle is not refused, if the index before it can be looked up. -/
theorem ensureVisible_of_unlocks (h : c.schedule = {}) {competition player : String} {index : Int}
    (hprevious : Store.holds (index - 1) = true)
    (hvisible : c.store.unlocks competition player index = true) :
    ensureVisible competition player index c = (.ok (), c) := by
  unfold ensureVisible seekView readVisible readView
  by_cases hfirst : index = 0
  · simp [hfirst, Action.bind_apply, Action.pure_apply]
  · simp [hfirst, Action.bind_apply, Action.pure_apply, Action.view, session_of_schedule h,
      checkInteger_of_holds hprevious, hvisible]

end Contest

namespace Action

variable {α β : Type}

/-- Nothing at all is changed where no fault is to come. -/
def IsStill (x : Action α) : Prop := ∀ c, c.schedule = {} → (x c).2 = c

theorem IsStill.bind {x : Action α} {f : α → Action β} (hx : x.IsStill) (hf : ∀ a, (f a).IsStill) :
    (x >>= f).IsStill := by
  intro c hc
  have hfirst := hx c hc
  rw [bind_apply]
  cases hresult : x c with
  | mk result c' =>
    rw [hresult] at hfirst
    change c' = c at hfirst
    subst hfirst
    cases result with
    | error e => rfl
    | ok a => exact hf a c' hc

theorem IsStill.ite {p : Prop} [Decidable p] {x y : Action α} (hx : x.IsStill) (hy : y.IsStill) :
    (if p then x else y).IsStill := by
  by_cases h : p
  · rw [if_pos h]
    exact hx
  · rw [if_neg h]
    exact hy

theorem isStill_pure (a : α) : (pure a : Action α).IsStill := fun _ _ => rfl

theorem isStill_refuse (r : Refusal) : (refuse r : Action α).IsStill := fun _ _ => rfl

theorem isStill_view (f : Contest → α) : (view f).IsStill := fun _ _ => rfl

end Action

namespace Contest

variable {c : Contest}

theorem isStill_session : session.IsStill := fun _ h => congrArg Prod.snd (session_of_schedule h)

theorem isStill_seek (missing : Refusal) : (seek missing).IsStill :=
  fun _ h => congrArg Prod.snd (seek_of_schedule h missing)

theorem isStill_checkInteger (n : Int) : (checkInteger n).IsStill :=
  .ite (Action.isStill_pure ()) fun _ _ => rfl

theorem isStill_checkStep (step : Int) : (checkStep step).IsStill :=
  .ite (Action.isStill_pure ()) fun _ _ => rfl

theorem isStill_readCompetition (id : String) : (readCompetition id).IsStill := by
  refine (Action.isStill_view _).bind fun x => ?_
  cases x with
  | none => exact Action.isStill_refuse _
  | some x => exact Action.isStill_pure x

theorem isStill_ensureVisible (competition player : String) (index : Int) :
    (ensureVisible competition player index).IsStill := by
  have hseek : (seekView index).IsStill := .ite (Action.isStill_pure ()) isStill_session
  have hread : (readView competition player index).IsStill :=
    .ite (Action.isStill_pure true)
      ((isStill_checkInteger _).bind fun _ => Action.isStill_view _)
  exact hseek.bind fun _ => hread.bind fun _ =>
    .ite (Action.isStill_pure ()) (Action.isStill_refuse _)

end Contest

theorem Attempt.isStill_consult (a : Attempt) : a.consult.IsStill := by
  have hdemand : (Contest.demandTry a.key .tryNotFound).IsStill :=
    fun c _ => by rw [Contest.demandTry_apply]
  refine hdemand.bind fun t => ?_
  intro c _
  unfold checkTry
  split
  · rfl
  · split <;> rfl

/-- The gates before the catalog is asked change nothing where no fault is to come. -/
theorem Attempt.isStill_gate (a : Attempt) : a.gate.IsStill := by
  have hfind : (Contest.findCompetition a.competition).IsStill :=
    Contest.isStill_session.bind fun _ => Contest.isStill_readCompetition _
  have hseek : (Contest.seekTry a.key).IsStill :=
    (Contest.isStill_checkStep _).bind fun _ => Contest.isStill_seek _
  exact (Contest.isStill_checkStep _).bind fun _ => (Contest.isStill_ensureVisible _ _ _).bind fun _ =>
    hfind.bind fun x => hseek.bind fun _ => a.isStill_consult.bind fun _ => Action.isStill_pure x

namespace Contest

variable {c : Contest}

/-! ## Locks that nobody uses -/

/-- Everybody may come where nobody uses a lock. -/
theorem admits_of_entries (h : c.locks.entries = []) (key : Try.Key) (me : Holder) :
    c.Admits key me := by
  refine ⟨Lock.Registry.orderly_empty.congr h, ?_⟩
  rintro ⟨e, he, -⟩
  simp [Lock.Registry.find?, h] at he

end Contest

namespace Submission

variable {me : Holder} {s : Submission} {c₀ c : Contest}

/-- What a submission needs of a contest: no fault is to come, its player is known, and its try is
there, unfinished, with room for one more attempt. -/
structure Ready (s : Submission) (c : Contest) : Prop where
  schedule_eq : c.schedule = {}
  step : s.step = firstStep ∨ s.step = lastStep
  player : ∃ p, c.directory.player? s.player = some p
  row : ∃ row, c.store.find? s.key = some row ∧ row.isFinished = false ∧
    Store.holds (row.attempts + 1) = true

/-- What a phase needs for the rest of the run to go well. -/
def Phase.Smooth (s : Submission) (c : Contest) : Phase → Prop
  | arriving | greeting | queueing _ => s.Ready c ∧ c.locks.entries = []
  | waiting _ => False
  | looking _ | reading _ => s.Ready c
  | peeking _ t _ | committing _ t _ => c.schedule = {} ∧ Store.holds t.attempts = true
  | closing _ result | leaving _ result => ∃ x, result = .ok x
  | done result => ∃ t, result = .ok t

theorem Ready.arrive_apply (h : s.Ready c) : s.arrive c = (.ok (), c) := by
  simp [arrive, Action.bind_apply, checkStep, h.step, Action.pure_apply,
    Contest.session_of_schedule h.schedule_eq]

/-- A submission that is ready finds its try and answers it. -/
theorem Ready.judge_apply (h : s.Ready c) (hs : c.store.Sound) :
    ∃ t, s.judge c = (.ok t, c) ∧ Store.holds t.attempts = true := by
  rcases h.row with ⟨row, hrow, hopen, hroom⟩
  have hkey := Store.key_of_find? hrow
  have hindex : Store.holds row.key.index = true := hs.storable row (Store.mem_of_find? hrow)
  rcases Option.isSome_iff_exists.1 (Try.answered?_isSome hindex c.now s.answer s.correct) with
    ⟨t, ht⟩
  refine ⟨t, ?_, ?_⟩
  · rw [hkey] at hindex
    simp [judge, Action.bind_apply, Contest.demandTry_apply, hindex, hrow, hopen, Action.view, ht,
      Action.pure_apply]
  · rw [(Try.answered_of_eq_some ht).attempts_eq]
    exact hroom

/-- A commit goes well where no fault is to come, the attempts can be stored, and the next step has no
try yet. -/
theorem commit_eq_ok {entry : Try Nat} {next : Option Moment} (hschedule : c.schedule = {})
    (hroom : Store.holds entry.attempts = true)
    (hnext : next ≠ none → (c.store.replace entry).find? s.key.next = none) :
    ∃ x, (s.commit entry next c).1 = .ok x := by
  have hfault := Contest.commitFault_of_schedule hschedule
  have hattempts := Contest.checkInteger_of_holds (c := c) hroom
  rw [commit_apply]
  simp only [Action.andThen, hfault, hattempts]
  cases next with
  | none => exact ⟨_, rfl⟩
  | some start =>
    have hnone : (c.store.replace entry).find? s.nextKey = none := hnext (by simp)
    simp only [Store.add?, hnone]
    exact ⟨_, rfl⟩

/-- The first step of a puzzle being unfinished, there is no try of the second one. -/
theorem next_eq_none {store : Store} {t : Try Nat} (hs : store.Sound) (hc : store.Cascaded)
    (hjudged : s.Judged store t) (hsolves : s.SolvesFirst) :
    (store.replace t).find? s.key.next = none := by
  rcases hjudged with ⟨row, now, hrow, hopen, hanswer⟩
  rw [(Store.find?_replace_answered hs hrow hanswer).2, if_neg (Try.Key.next_ne hsolves.2)]
  refine hc.next_eq_none hsolves.2 ?_
  intro first hfirst
  rw [hrow, Option.some.injEq] at hfirst
  rw [← hfirst]
  exact hopen

/-- Every step of a submission keeps what the rest of the run needs. -/
theorem Phase.Smooth.advance {phase : Phase} (hsince : Deed.Since c₀ (.submission s phase) c)
    (h : phase.Smooth s c) : (s.advance me phase c).1.Smooth s (s.advance me phase c).2 := by
  cases phase with
  | arriving =>
    simp only [Submission.advance, h.1.arrive_apply]
    exact h
  | greeting =>
    rcases h.1.player with ⟨p, hp⟩
    simp only [Submission.advance, Contest.readPlayer_of_player? hp]
    exact h
  | queueing p =>
    have hholds : (c.enter s.key me).locks.holds s.key me = true :=
      Lock.Registry.holds_enter h.2 s.key me
    simp only [Submission.advance, hholds, if_true]
    exact ⟨h.1.schedule_eq, h.1.step, h.1.player, h.1.row⟩
  | waiting p => exact absurd h id
  | looking p =>
    simp only [Submission.advance, Contest.seek_of_schedule (Ready.schedule_eq h)]
    exact h
  | reading p =>
    rcases Ready.judge_apply h hsince.store with ⟨t, hjudge, hroom⟩
    have hschedule := Ready.schedule_eq h
    simp only [Submission.advance, hjudge, afterJudge]
    split
    · exact ⟨hschedule, hroom⟩
    · exact ⟨hschedule, hroom⟩
  | peeking p t now =>
    have hpeek : (s.peek t c).2 = c ∧ ∃ found, (s.peek t c).1 = .ok found := by
      rcases hsince.informed with ⟨-, ⟨row, _, hrow, -, -⟩, -⟩
      have hindex : Store.holds s.nextKey.index = true := by
        change Store.holds s.key.index = true
        rw [← Store.key_of_find? hrow]
        exact hsince.store.storable row (Store.mem_of_find? hrow)
      simp [peek, Action.bind_apply, Contest.glance_of_schedule h.1,
        Contest.checkInteger_of_holds h.2, Contest.readTry_apply, hindex]
    cases hresult : s.peek t c with
    | mk result c' =>
      rw [hresult] at hpeek
      rcases hpeek with ⟨rfl, found, rfl⟩
      simp only [Submission.advance, hresult]
      cases found <;> exact h
  | committing p t next =>
    rcases hsince.informed with ⟨-, hjudged, hnext⟩
    have hcommit : ∃ x, (s.commit t next c).1 = .ok x := by
      refine commit_eq_ok h.1 h.2 ?_
      intro hsome
      rcases Option.ne_none_iff_exists'.1 hsome with ⟨start, rfl⟩
      exact next_eq_none hsince.store hsince.cascaded hjudged hnext.1
    exact hcommit
  | closing p result => exact h
  | leaving p result =>
    rcases h with ⟨x, rfl⟩
    simp only [Submission.advance, afterLeave_ok]
    exact ⟨x.entry, rfl⟩
  | done result => exact h

/-- A submission is under way, and the rest of its run will go well. -/
def Goes (s : Submission) (d : Deed) (c : Contest) : Prop :=
  ∀ phase, d = .submission s phase → phase.Smooth s c

/-- An undisturbed submission returns the answered try. -/
theorem run_eq_ok (me : Holder) (hs : c.store.Sound) (hc : c.store.Cascaded) (h : s.Ready c)
    (hlocks : c.locks.entries = []) : ∃ t, (s.run me c).1 = .ok t := by
  have hend : s.Goes (.submission s (.done (s.run me c).1)) (s.run me c).2 := by
    refine runFrom_induction (P := s.Goes) ?_ (since_arriving s hs hc) ?_
    · rintro phase c' hsince - hgoes phase' heq
      rw [Deed.submission.injEq] at heq
      rw [← heq.2]
      exact (hgoes phase rfl).advance hsince
    · rintro phase heq
      rw [Deed.submission.injEq] at heq
      rw [← heq.2]
      exact ⟨h, hlocks⟩
  exact hend _ rfl

end Submission

end PuzzleContest
