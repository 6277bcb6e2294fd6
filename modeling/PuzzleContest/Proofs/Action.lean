import Mathlib.Logic.Basic
import PuzzleContest.Contest.Opening
import PuzzleContest.Contest.Query
import PuzzleContest.Proofs.Change

/-!
# What actions leave alone

Most actions of a contest only read: they use up faults that were to come, and leave everything else
as it is.  What such an action finds is described by an equation or by what must have been there.

Main results:

- `Action.IsRead`: an action that changes nothing but the faults to come.
- `Contest.readTry_apply`, `Contest.demandTry_apply`: reads of a try as equations.
- `Submission.judge_eq_ok`, `Submission.peek_eq_some`: what was there when a submission read it.
- `Opening.insert_cases`, `Submission.commit_cases`: all that can come of a commit.
-/

namespace PuzzleContest

namespace Action

variable {α β : Type}

/-- A sequence of actions has a result when both have one. -/
theorem bind_eq_ok {x : Action α} {f : α → Action β} {b : β} {c c' : Contest}
    (h : (x >>= f) c = (.ok b, c')) : ∃ a c₁, x c = (.ok a, c₁) ∧ f a c₁ = (.ok b, c') := by
  rw [bind_apply] at h
  cases hx : x c with
  | mk result c₁ =>
    rw [hx] at h
    cases result with
    | error e => exact absurd (congrArg Prod.fst h) (by simp)
    | ok a => exact ⟨a, c₁, rfl, h⟩

/-- Nothing is changed but the faults to come. -/
def IsRead (x : Action α) : Prop := ∀ c, ∃ schedule, (x c).2 = { c with schedule := schedule }

theorem IsRead.pure (a : α) : IsRead (Pure.pure a : Action α) := fun c => ⟨c.schedule, rfl⟩

theorem IsRead.fail (e : Failure) : IsRead (fail e : Action α) := fun c => ⟨c.schedule, rfl⟩

theorem IsRead.refuse (r : Refusal) : IsRead (refuse r : Action α) := fun c => ⟨c.schedule, rfl⟩

theorem IsRead.view (f : Contest → α) : IsRead (view f) := fun c => ⟨c.schedule, rfl⟩

theorem IsRead.cases {x : Action α} (hx : IsRead x) (c : Contest) :
    ∃ result schedule, x c = (result, { c with schedule := schedule }) := by
  obtain ⟨schedule, hschedule⟩ := hx c
  exact ⟨(x c).1, schedule, Prod.ext rfl hschedule⟩

theorem IsRead.bind {x : Action α} {f : α → Action β} (hx : IsRead x) (hf : ∀ a, IsRead (f a)) :
    IsRead (x >>= f) := by
  intro c
  obtain ⟨schedule, hschedule⟩ := hx c
  rw [bind_apply]
  cases hresult : x c with
  | mk result c' =>
    rw [hresult] at hschedule
    have hc' : c' = { c with schedule := schedule } := hschedule
    subst hc'
    cases result with
    | error e => exact ⟨schedule, rfl⟩
    | ok a => exact hf a _

theorem IsRead.ite {p : Prop} [Decidable p] {x y : Action α} (hx : IsRead x) (hy : IsRead y) :
    IsRead (if p then x else y) := by
  by_cases h : p
  · rw [if_pos h]
    exact hx
  · rw [if_neg h]
    exact hy

end Action

open PuzzleContest.Action

namespace Contest

/-! ## Dealings with the storage -/

theorem isRead_session : IsRead session := by
  intro c
  unfold session
  split <;> exact ⟨_, rfl⟩

theorem isRead_findFault : IsRead findFault := by
  intro c
  unfold findFault
  split <;> exact ⟨_, rfl⟩

theorem isRead_overlooks : IsRead overlooks := by
  intro c
  unfold overlooks
  split <;> exact ⟨_, rfl⟩

theorem isRead_commitFault : IsRead commitFault := by
  intro c
  unfold commitFault
  split <;> exact ⟨_, rfl⟩

theorem isRead_checkInteger (n : Int) : IsRead (checkInteger n) :=
  .ite (.pure ()) (.fail _)

theorem isRead_glance : IsRead glance :=
  isRead_findFault.bind fun _ => isRead_overlooks

theorem isRead_seek (missing : Refusal) : IsRead (seek missing) :=
  isRead_session.bind fun _ => isRead_glance.bind fun _ => .ite (.refuse _) (.pure ())

theorem isRead_readPlayer (id : String) : IsRead (readPlayer id) := by
  refine (IsRead.view _).bind fun p => ?_
  cases p with
  | none => exact .refuse _
  | some p => exact .pure p

theorem isRead_readCompetition (id : String) : IsRead (readCompetition id) := by
  refine (IsRead.view _).bind fun x => ?_
  cases x with
  | none => exact .refuse _
  | some x => exact .pure x

theorem isRead_readTry (key : Try.Key) : IsRead (readTry key) :=
  (isRead_checkInteger _).bind fun _ => .view _

theorem isRead_demandTry (key : Try.Key) (missing : Refusal) : IsRead (demandTry key missing) := by
  refine (isRead_readTry key).bind fun t => ?_
  cases t with
  | none => exact .refuse _
  | some t => exact .pure t

theorem isRead_checkStep (step : Int) : IsRead (checkStep step) :=
  .ite (.pure ()) (.fail _)

/-! ## What a read finds -/

/-- A player who was read is in the directory. -/
theorem readPlayer_eq_ok {id : String} {c c' : Contest} {p : Player}
    (h : readPlayer id c = (.ok p, c')) : c.directory.player? id = some p := by
  simp only [readPlayer, bind_apply, view] at h
  cases hp : c.directory.player? id with
  | none => simp [hp, refuse, fail] at h
  | some q =>
    rw [hp] at h
    have hq : q = p := by simpa [pure_apply] using congrArg Prod.fst h
    rw [hq]

theorem readPlayer_of_player? {id : String} {p : Player} {c : Contest}
    (h : c.directory.player? id = some p) : readPlayer id c = (.ok p, c) := by
  simp [readPlayer, bind_apply, view, h, pure_apply]

theorem readCompetition_of_competition? {id : String} {x : Competition} {c : Contest}
    (h : c.directory.competition? id = some x) : readCompetition id c = (.ok x, c) := by
  simp [readCompetition, bind_apply, view, h, pure_apply]

/-- A read of a try changes nothing; only an index that is too wide makes it fail. -/
theorem readTry_apply (key : Try.Key) (c : Contest) :
    readTry key c =
      (if Store.holds key.index then .ok (c.store.find? key) else .error .integerTooWide, c) := by
  simp only [readTry, checkInteger, bind_apply]
  by_cases h : Store.holds key.index = true <;> simp [h, pure_apply, view, fail]

/-- A read of a try that should be there changes nothing. -/
theorem demandTry_apply (key : Try.Key) (missing : Refusal) (c : Contest) :
    demandTry key missing c =
      (if Store.holds key.index then
        match c.store.find? key with
        | some t => .ok t
        | none => .error (.refused missing)
      else .error .integerTooWide, c) := by
  simp only [demandTry, bind_apply, readTry_apply]
  by_cases h : Store.holds key.index = true
  · cases hfind : c.store.find? key <;> simp [h, pure_apply, refuse, fail]
  · simp [h]

/-- A try that was demanded and read is the one of its key. -/
theorem demandTry_eq_ok {key : Try.Key} {missing : Refusal} {c c' : Contest} {t : Try Nat}
    (h : demandTry key missing c = (.ok t, c')) : c.store.find? key = some t ∧ c' = c := by
  rw [demandTry_apply] at h
  obtain ⟨hresult, rfl⟩ := Prod.mk.inj h
  refine ⟨?_, rfl⟩
  by_cases hindex : Store.holds key.index = true
  · rw [if_pos hindex] at hresult
    cases hfind : c.store.find? key with
    | none => simp [hfind] at hresult
    | some u => simpa [hfind] using hresult
  · simp [hindex] at hresult

end Contest

/-! ## Openings -/

namespace Opening

theorem isRead_look : IsRead look :=
  Contest.isRead_session.bind fun _ => Contest.isRead_glance

theorem insert_apply (o : Opening) (start : Moment) (c : Contest) :
    o.insert start c =
      andThen Contest.commitFault (fun _ => andThen (Contest.checkInteger o.index) fun _ c =>
        match c.store.add? o.key o.level start with
        | none => (.ok none, c)
        | some (t, store) => (.ok (some t), { c with store })) c :=
  rfl

/-- All that can come of the commit of a new try. -/
theorem insert_cases (o : Opening) (start : Moment) (c : Contest) :
    (∃ e schedule, o.insert start c = (.error e, { c with schedule := schedule })) ∨
    (∃ schedule, o.insert start c = (.ok none, { c with schedule := schedule })) ∨
    ∃ t store schedule, Store.holds o.key.index = true ∧
      c.store.add? o.key o.level start = some (t, store) ∧
      o.insert start c = (.ok (some t), { c with schedule := schedule, store := store }) := by
  obtain ⟨schedule, hschedule⟩ := Contest.isRead_commitFault c
  rw [insert_apply, andThen]
  cases hfault : Contest.commitFault c with
  | mk result c' =>
    rw [hfault] at hschedule
    have hc' : c' = { c with schedule := schedule } := hschedule
    subst hc'
    cases result with
    | error e => exact .inl ⟨e, schedule, rfl⟩
    | ok _ =>
      by_cases hindex : Store.holds o.index = true
      · cases hadd : c.store.add? o.key o.level start with
        | none =>
          refine .inr (.inl ⟨schedule, ?_⟩)
          simp [andThen, Contest.checkInteger, hindex, pure_apply, hadd]
        | some x =>
          refine .inr (.inr ⟨x.1, x.2, schedule, hindex, rfl, ?_⟩)
          simp [andThen, Contest.checkInteger, hindex, pure_apply, hadd]
      · refine .inl ⟨.integerTooWide, schedule, ?_⟩
        simp [andThen, Contest.checkInteger, hindex, fail]

end Opening

/-! ## Submissions -/

namespace Submission

theorem isRead_arrive (s : Submission) : IsRead s.arrive :=
  (Contest.isRead_checkStep _).bind fun _ => Contest.isRead_session

theorem isRead_judge (s : Submission) : IsRead s.judge := by
  refine (Contest.isRead_demandTry _ _).bind fun t => ?_
  refine IsRead.ite ((IsRead.refuse _).bind fun _ => ?_) ?_ <;>
    refine (IsRead.view _).bind fun now => ?_
  all_goals
    cases t.answered? now s.answer s.correct with
    | none => exact .fail _
    | some u => exact .pure u

/-- A try that was judged was there and unfinished, and is now answered. -/
theorem judge_eq_ok {s : Submission} {c c' : Contest} {t : Try Nat}
    (h : s.judge c = (.ok t, c')) :
    c' = c ∧ ∃ row, c.store.find? s.key = some row ∧ row.isFinished = false ∧
      row.answered? c.now s.answer s.correct = some t := by
  simp only [judge, bind_apply] at h
  cases hdemand : Contest.demandTry s.key .tryNotFound c with
  | mk result c₁ =>
    rw [hdemand] at h
    cases result with
    | error e => simp at h
    | ok row =>
      obtain ⟨hrow, rfl⟩ := Contest.demandTry_eq_ok hdemand
      cases hopen : row.isFinished with
      | true => simp [hopen, bind_apply, refuse, fail] at h
      | false =>
        cases hanswer : row.answered? c₁.now s.answer s.correct with
        | none => simp [hopen, hanswer, bind_apply, view, fail] at h
        | some u =>
          simp only [hopen, hanswer, bind_apply, pure_apply, view, Bool.false_eq_true, if_false] at h
          obtain ⟨hu, rfl⟩ := Prod.mk.inj h
          rw [Except.ok.injEq] at hu
          exact ⟨rfl, row, hrow, hopen, hu ▸ hanswer⟩

/-- A finished try is refused. -/
theorem judge_of_isFinished {s : Submission} {c : Contest} {row : Try Nat}
    (hindex : Store.holds s.key.index = true) (hrow : c.store.find? s.key = some row)
    (hfinished : row.isFinished = true) :
    s.judge c = (.error (.refused .alreadyFinished), c) := by
  simp only [judge, bind_apply, Contest.demandTry_apply, hindex, if_true, hrow, hfinished]
  rfl

theorem isRead_peek (s : Submission) (entry : Try Nat) : IsRead (s.peek entry) :=
  Contest.isRead_glance.bind fun _ => .ite (.pure none) <|
    (Contest.isRead_checkInteger _).bind fun _ => Contest.isRead_readTry _

/-- A try of the last step that was peeked at was there. -/
theorem peek_eq_some {s : Submission} {entry t : Try Nat} {c c' : Contest}
    (h : s.peek entry c = (.ok (some t), c')) : c.store.find? s.key.next = some t := by
  simp only [peek, bind_apply] at h
  obtain ⟨schedule, hschedule⟩ := Contest.isRead_glance c
  cases hglance : Contest.glance c with
  | mk result c₁ =>
    rw [hglance] at h hschedule
    have hc₁ : c₁ = { c with schedule := schedule } := hschedule
    subst hc₁
    cases result with
    | error e => simp at h
    | ok overlooked =>
      cases overlooked with
      | true => simp [pure_apply] at h
      | false =>
        by_cases hattempts : Store.holds entry.attempts = true
        · simp only [Bool.false_eq_true, if_false, bind_apply, Contest.checkInteger, hattempts,
            if_true, pure_apply, Contest.readTry_apply] at h
          by_cases hindex : Store.holds s.nextKey.index = true
          · simp only [hindex, if_true, Prod.mk.injEq, Except.ok.injEq] at h
            exact h.1
          · simp [hindex] at h
        · simp [bind_apply, Contest.checkInteger, hattempts, fail] at h

theorem commit_apply (s : Submission) (entry : Try Nat) (next : Option Moment) (c : Contest) :
    s.commit entry next c =
      andThen Contest.commitFault (fun _ => andThen (Contest.checkInteger entry.attempts) fun _ c =>
        match next with
        | none => (.ok ⟨entry, none⟩, { c with store := c.store.replace entry })
        | some start =>
          match (c.store.replace entry).add? s.nextKey entry.level start with
          | none => (.error .duplicate, c)
          | some (t, store) => (.ok ⟨entry, some t⟩, { c with store })) c :=
  rfl

/-- All that can come of the commit of an answered try. -/
theorem commit_cases (s : Submission) (entry : Try Nat) (next : Option Moment) (c : Contest) :
    (∃ e schedule, s.commit entry next c = (.error e, { c with schedule := schedule })) ∨
    (∃ schedule, next = none ∧ s.commit entry next c =
      (.ok ⟨entry, none⟩, { c with schedule := schedule, store := c.store.replace entry })) ∨
    ∃ start t store schedule, next = some start ∧
      (c.store.replace entry).add? s.key.next entry.level start = some (t, store) ∧
      s.commit entry next c =
        (.ok ⟨entry, some t⟩, { c with schedule := schedule, store := store }) := by
  obtain ⟨schedule, hschedule⟩ := Contest.isRead_commitFault c
  rw [commit_apply, andThen]
  cases hfault : Contest.commitFault c with
  | mk result c' =>
    rw [hfault] at hschedule
    have hc' : c' = { c with schedule := schedule } := hschedule
    subst hc'
    cases result with
    | error e => exact .inl ⟨e, schedule, rfl⟩
    | ok _ =>
      by_cases hattempts : Store.holds entry.attempts = true
      · cases next with
        | none =>
          refine .inr (.inl ⟨schedule, rfl, ?_⟩)
          simp [andThen, Contest.checkInteger, hattempts, pure_apply]
        | some start =>
          cases hadd : (c.store.replace entry).add? s.nextKey entry.level start with
          | none =>
            refine .inl ⟨.duplicate, schedule, ?_⟩
            simp [andThen, Contest.checkInteger, hattempts, pure_apply, hadd]
          | some x =>
            refine .inr (.inr ⟨start, x.1, x.2, schedule, rfl, hadd, ?_⟩)
            simp [andThen, Contest.checkInteger, hattempts, pure_apply, hadd]
      · refine .inl ⟨.integerTooWide, schedule, ?_⟩
        simp [andThen, Contest.checkInteger, hattempts, fail]

end Submission

end PuzzleContest
