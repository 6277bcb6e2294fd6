import PuzzleContest.Proofs.Cooldown
import PuzzleContest.Proofs.Gate
import PuzzleContest.Proofs.Season

/-!
# Answers in a rush

An answer to the submission service passes the gate of the cooldown first, is checked by the catalog
then, and recorded last.  Between these three phases other answers take phases of their own, other
calls run, and time goes on.  The cooldown is looked at in the first phase only.  So a submission can
be recorded in spite of the cooldown, and this happens exactly when others have been recorded since its
gate and the cooldown that they imposed has not ended.

Main results:

- `Rush.advance_three`: alone, the three phases of an answer are the whole answer.
- `Rush.Sound.run`: what a request saw at its gate is the try as it is, or as it was.
- `Rush.blocks_iff_overtaken`: when a submission is recorded that the cooldown should have blocked.
- `Rush.not_forall_not_blocks`: it happens.
-/

namespace PuzzleContest

/-! ## Requests -/

namespace Rush

/-- How far a request is, and what it saw at the gate and when. -/
inductive Phase where
  | asking
  /-- The gate is behind it; next comes the catalog. -/
  | passed (x : Competition) (seen : Option (Try Nat)) (time : Moment)
  /-- The verdict is known; next the submission is recorded. -/
  | judged (correct : Bool) (seen : Option (Try Nat)) (time : Moment)
  | ended (result : Except Failure Verdict)
deriving DecidableEq

/-- An answer under way. -/
structure Request where
  attempt : Attempt
  phase : Phase
deriving DecidableEq

/-- The next phase of an answer. -/
def advance (me : Holder) (a : Attempt) (phase : Phase) (c : Contest) : Phase × Contest :=
  match phase with
  | .asking =>
    match a.gate c with
    | (.ok x, c') => (.passed x (c.store.find? a.key) c.now, c')
    | (.error e, c') => (.ended (.error e), c')
  | .passed x seen time =>
    match a.check x c with
    | (.ok correct, c') => (.judged correct seen time, c')
    | (.error e, c') => (.ended (.error e), c')
  | .judged correct _ _ =>
    match (a.judged correct).run me c with
    | (.ok t, c') => (.ended (.ok ⟨correct, t⟩), c')
    | (.error e, c') => (.ended (.error e), c')
  | .ended result => (.ended result, c)

variable {me : Holder} {a : Attempt} {phase : Phase} {c c' : Contest}

/-- Alone, the three phases of an answer are the whole answer. -/
theorem advance_three (me : Holder) (a : Attempt) (c : Contest) :
    let one := advance me a .asking c
    let two := advance me a one.1 one.2
    advance me a two.1 two.2 = (.ended (a.play me c).1, (a.play me c).2) := by
  simp only [advance, Attempt.play, Action.bind_apply]
  cases hgate : a.gate c with
  | mk x c₁ =>
    cases x with
    | error e => rfl
    | ok x =>
      simp only
      cases hcheck : a.check x c₁ with
      | mk verdict c₂ =>
        cases verdict with
        | error e => rfl
        | ok correct =>
          simp only
          cases hrun : (a.judged correct).run me c₂ with
          | mk t c₃ => cases t <;> rfl

/-- Each phase makes nothing of the tries or one change. -/
theorem advance_becomes (me : Holder) (a : Attempt) (phase : Phase) (hs : c.store.Sound)
    (hc : c.store.Cascaded) : ∃ what, c.Becomes what (advance me a phase c).2 := by
  cases phase with
  | asking =>
    have hgate := a.isRead_gate.agrees c
    simp only [advance]
    cases hx : a.gate c with
    | mk x c₁ =>
      rw [hx] at hgate
      cases x <;> exact ⟨none, .same hgate⟩
  | passed x seen time =>
    have hcheck := a.check_agrees x c
    simp only [advance]
    cases hverdict : a.check x c with
    | mk verdict c₁ =>
      rw [hverdict] at hcheck
      cases verdict <;> exact ⟨none, .same hcheck⟩
  | judged correct seen time =>
    have hrun : ∃ what, c.Becomes what ((a.judged correct).run me c).2 := by
      rcases (a.judged correct).run_becomes me hs hc with ⟨e, -, h⟩ | ⟨t, -, h⟩
      · exact ⟨_, h⟩
      · exact ⟨_, h⟩
    simp only [advance]
    cases hresult : (a.judged correct).run me c with
    | mk t c₁ =>
      rw [hresult] at hrun
      cases t <;> exact hrun
  | ended result => exact ⟨none, .same ⟨rfl, rfl, rfl, rfl, rfl⟩⟩

/-- What was seen of a key at some time, when its gate was clear: the try as it is, or the try with
fewer attempts than it has now. -/
def Saw (c : Contest) (key : Try.Key) (seen : Option (Try Nat)) (time : Moment) : Prop :=
  ∃ old row, seen = some old ∧ c.store.find? key = some row ∧
    Cooldown.gate c.plan old.attempts old.lastMove time = some .clear ∧
    time.instant ≤ c.now.instant ∧ (row = old ∨ old.attempts < row.attempts)

/-- A request remembers what it saw. -/
def Request.Remembers (c : Contest) (r : Request) : Prop :=
  match r.phase with
  | .passed _ seen time | .judged _ seen time => Saw c r.attempt.key seen time
  | .asking | .ended _ => True

theorem Saw.becomes {key : Try.Key} {seen : Option (Try Nat)} {time : Moment}
    {what : Option (Try.Key × Deal)} (hs : c.store.Sound) (h : Saw c key seen time)
    (hbecomes : c.Becomes what c') : Saw c' key seen time := by
  rcases h with ⟨old, row, hseen, hrow, hclear, htime, hold⟩
  rw [← hbecomes.plan_eq] at hclear
  rw [← hbecomes.now_eq] at htime
  cases hbecomes with
  | same hagrees =>
    rw [← hagrees.store_eq] at hrow
    exact ⟨old, row, hseen, hrow, hclear, htime, hold⟩
  | changed hdirectory hplan hnow hmoment hplayer hchange houtbox =>
    cases hchange.fate hs key with
    | untouched hfind htold hdeal =>
      exact ⟨old, row, hseen, hfind.trans hrow, hclear, htime, hold⟩
    | made hnone hfresh hfind htold hdeal =>
      rw [hnone] at hrow
      exact absurd hrow (by simp)
    | @answered row' next now answer correct hkey hdeal hrow' hopen hanswer hfind htold =>
      rw [hrow, Option.some.injEq] at hrow'
      have hattempts := (Try.answered_of_eq_some hanswer).attempts_eq
      refine ⟨old, next, hseen, hfind, hclear, htime, .inr ?_⟩
      rcases hold with rfl | hold
      · rw [hattempts, hrow']
        omega
      · rw [hattempts, ← hrow']
        omega

theorem Request.Remembers.becomes {r : Request} {what : Option (Try.Key × Deal)}
    (hs : c.store.Sound) (h : r.Remembers c) (hbecomes : c.Becomes what c') : r.Remembers c' := by
  unfold Remembers at h ⊢
  split at h
  · exact h.becomes hs hbecomes
  · exact h.becomes hs hbecomes
  · trivial
  · trivial

/-- A phase of its own does not make a request forget. -/
theorem remembers_advance (me : Holder) (hs : c.store.Sound) (hc : c.store.Cascaded)
    (h : Request.Remembers c ⟨a, phase⟩) :
    Request.Remembers (advance me a phase c).2 ⟨a, (advance me a phase c).1⟩ := by
  rcases advance_becomes me a phase hs hc with ⟨what, hbecomes⟩
  cases phase with
  | asking =>
    simp only [advance] at hbecomes ⊢
    cases hgate : a.gate c with
    | mk x c₁ =>
      rw [hgate] at hbecomes
      cases x with
      | error e => trivial
      | ok x =>
        rcases Attempt.gate_eq_ok hgate with ⟨old, hpasses⟩
        have hsaw : Saw c a.key (c.store.find? a.key) c.now :=
          ⟨old, old, hpasses.found, hpasses.found, hpasses.clear, Int.le_refl _, .inl rfl⟩
        exact hsaw.becomes hs hbecomes
  | passed x seen time =>
    have hsaw : Saw c a.key seen time := h
    simp only [advance] at hbecomes ⊢
    cases hcheck : a.check x c with
    | mk verdict c₁ =>
      rw [hcheck] at hbecomes
      cases verdict with
      | error e => trivial
      | ok correct => exact hsaw.becomes hs hbecomes
  | judged correct seen time =>
    simp only [advance]
    cases hrun : (a.judged correct).run me c with
    | mk t c₁ => cases t <;> trivial
  | ended result => trivial

end Rush

/-! ## Many requests -/

/-- Answers that share a contest.  The place of a request in the list is its number. -/
structure Rush where
  contest : Contest
  requests : List Rush.Request

namespace Rush

/-- What happens next. -/
inductive Move where
  /-- The request of a number takes its next phase. -/
  | turn (i : Nat)
  /-- Another call runs from its beginning to its end. -/
  | call (me : Holder) (call : Call)
  /-- Everything around the tries changes, apart from the cooldowns; the clock never goes back. -/
  | around (x : Contest.Surroundings)

/-- Answers that start on a contest without tries. -/
def begin (c : Contest) (attempts : List Attempt) : Rush where
  contest := c.bare
  requests := attempts.map fun a => ⟨a, .asking⟩

/-- The state after one move. -/
def step (w : Rush) : Move → Rush
  | .turn i =>
    match w.requests[i]? with
    | none => w
    | some r =>
      let next := advance (.caller i) r.attempt r.phase w.contest
      ⟨next.2, w.requests.set i ⟨r.attempt, next.1⟩⟩
  | .call me call => { w with contest := w.contest.after (.call me call) }
  | .around x =>
    if w.contest.now.instant ≤ x.now.instant then
      { w with contest := w.contest.after (.around { x with plan := w.contest.plan }) }
    else w

theorem step_turn_of_some {w : Rush} {i : Nat} {r : Request} (h : w.requests[i]? = some r) :
    w.step (.turn i) = ⟨(advance (.caller i) r.attempt r.phase w.contest).2, w.requests.set i
      ⟨r.attempt, (advance (.caller i) r.attempt r.phase w.contest).1⟩⟩ := by
  simp only [step, h]

theorem step_turn_of_none {w : Rush} {i : Nat} (h : w.requests[i]? = none) :
    w.step (.turn i) = w := by
  simp only [step, h]

/-- The state after a list of moves. -/
def run (w : Rush) (moves : List Move) : Rush := moves.foldl step w

/-- What holds between the moves of a rush. -/
structure Sound (w : Rush) : Prop where
  store : w.contest.store.Sound
  cascaded : w.contest.store.Cascaded
  remembers : ∀ r ∈ w.requests, r.Remembers w.contest

theorem sound_begin (c : Contest) (attempts : List Attempt) : (begin c attempts).Sound where
  store := Store.sound_empty
  cascaded := Store.cascaded_empty
  remembers := by
    intro r hr
    rcases List.mem_map.1 hr with ⟨a, -, rfl⟩
    trivial

/-- Every move keeps what requests remember true. -/
theorem Sound.step {w : Rush} (hw : w.Sound) (m : Move) : (w.step m).Sound := by
  cases m with
  | turn i =>
    cases hi : w.requests[i]? with
    | none =>
      rw [step_turn_of_none hi]
      exact hw
    | some r =>
      rw [step_turn_of_some hi]
      have hr := hw.remembers r (List.mem_of_getElem? hi)
      rcases advance_becomes (.caller i) r.attempt r.phase hw.store hw.cascaded with ⟨what, hbecomes⟩
      refine ⟨hbecomes.sound hw.store, hbecomes.cascaded hw.store hw.cascaded, ?_⟩
      intro r' hr'
      rcases List.mem_or_eq_of_mem_set hr' with hother | rfl
      · exact (hw.remembers r' hother).becomes hw.store hbecomes
      · exact remembers_advance (.caller i) hw.store hw.cascaded hr
  | call me call =>
    rcases call.run_becomes me hw.store hw.cascaded with ⟨what, hbecomes, -⟩
    refine ⟨hbecomes.sound hw.store, hbecomes.cascaded hw.store hw.cascaded, ?_⟩
    intro r hr
    exact (hw.remembers r hr).becomes hw.store hbecomes
  | around x =>
    unfold Rush.step
    by_cases hle : w.contest.now.instant ≤ x.now.instant
    · simp only [if_pos hle]
      refine ⟨hw.store, hw.cascaded, ?_⟩
      intro r hr
      have hremembers := hw.remembers r hr
      unfold Request.Remembers at hremembers ⊢
      split at hremembers
      · rcases hremembers with ⟨old, row, hseen, hrow, hclear, htime, hold⟩
        exact ⟨old, row, hseen, hrow, hclear, Int.le_trans htime hle, hold⟩
      · rcases hremembers with ⟨old, row, hseen, hrow, hclear, htime, hold⟩
        exact ⟨old, row, hseen, hrow, hclear, Int.le_trans htime hle, hold⟩
      · trivial
      · trivial
    · simp only [if_neg hle]
      exact hw

theorem Sound.run {w : Rush} (hw : w.Sound) (moves : List Move) : (w.run moves).Sound := by
  induction moves generalizing w with
  | nil => exact hw
  | cons m rest ih => exact ih (hw.step m)

/-! ## The cooldown in a rush -/

/-- The gate would block an answer to a try now. -/
def Blocks (c : Contest) (row : Try Nat) : Prop :=
  ∃ remaining, Cooldown.gate c.plan row.attempts row.lastMove c.now = some (.blocked remaining)

/-- A request was overtaken: since it saw a try at its gate others have been recorded on it, and the
cooldown that they imposed has not ended. -/
def Overtaken (c : Contest) (seen : Option (Try Nat)) (row : Try Nat) : Prop :=
  (∃ old, seen = some old ∧ old.attempts < row.attempts) ∧
    ∃ last cooldown stop, row.lastMove = some last ∧
      c.plan.cooldown? row.attempts = some cooldown ∧ last.shift? cooldown = some stop ∧
      c.now.instant < stop.instant

/-- What a submission that is recorded makes of the try that it finds. -/
theorem recorded_of_ok {s : Submission} {row t : Try Nat} (hs : c.store.Sound)
    (hc : c.store.Cascaded) (hrow : c.store.find? s.key = some row)
    (ht : (s.run me c).1 = .ok t) : ∃ row', (s.run me c).2.store.find? s.key = some row' ∧
      row'.attempts = row.attempts + 1 ∧ row'.lastMove = some c.now := by
  rcases s.run_becomes me hs hc with ⟨e, herror, -⟩ | ⟨u, -, hbecomes⟩
  · rw [ht] at herror
    exact absurd herror (by simp)
  · cases hbecomes with
    | changed hdirectory hplan hnow hmoment hplayer hchange houtbox =>
      cases hchange.fate hs s.key with
      | untouched hfind htold hdeal =>
        exact absurd (hdeal rfl) (by simp [Submission.deal, Deal.isAnswer])
      | made hnone hfresh hfind htold hdeal =>
        exact absurd (hdeal rfl) (by simp [Submission.deal, Deal.isAnswer])
      | @answered row₀ row' now answer correct hkey hdeal hrow₀ hopen hanswer hfind htold =>
        rw [hrow, Option.some.injEq] at hrow₀
        have hanswered := Try.answered_of_eq_some hanswer
        have hnow' : now = c.now := (congrArg Deal.moment hdeal).symm
        refine ⟨row', hfind, ?_, ?_⟩
        · rw [hanswered.attempts_eq, hrow₀]
        · rw [hanswered.lastMove_eq, hnow']

/-- When a submission comes to be recorded, the gate would block it exactly if it was overtaken. -/
theorem blocks_iff_overtaken (c : Contest) (attempts : List Attempt) (moves : List Move) {i : Nat}
    {a : Attempt} {correct : Bool} {seen : Option (Try Nat)} {time : Moment}
    (hi : ((begin c attempts).run moves).requests[i]? = some ⟨a, .judged correct seen time⟩) :
    let now := ((begin c attempts).run moves).contest
    let recorded := (a.judged correct).run (.caller i) now
    ∃ row, now.store.find? a.key = some row ∧ (Blocks now row ↔ Overtaken now seen row) ∧
      ∀ t, recorded.1 = .ok t → ∃ row', recorded.2.store.find? a.key = some row' ∧
        row'.attempts = row.attempts + 1 ∧ row'.lastMove = some now.now := by
  intro now recorded
  have hw : ((begin c attempts).run moves).Sound := (sound_begin c attempts).run moves
  have hsaw : Saw now a.key seen time := hw.remembers _ (List.mem_of_getElem? hi)
  rcases hsaw with ⟨old, row, hseen, hrow, hclear, htime, hold⟩
  refine ⟨row, hrow, ?_, fun t ht => recorded_of_ok hw.store hw.cascaded hrow ht⟩
  unfold Blocks Overtaken
  rw [Cooldown.gate_blocked_iff]
  constructor
  · intro hshut
    refine ⟨⟨old, hseen, ?_⟩, hshut⟩
    rcases hold with rfl | hold
    · -- An untouched try would still be open to an answer.
      have hstill := Cooldown.gate_eq_clear_of_le hclear htime
      rcases Cooldown.gate_blocked_iff.2 hshut with ⟨remaining, hblocked⟩
      rw [hstill] at hblocked
      exact absurd hblocked (by simp)
    · exact hold
  · rintro ⟨-, hshut⟩
    exact hshut

/-! ## A rush that overruns the cooldown -/

/-- A wrong answer to the sample puzzle. -/
def sampleAttempt : Attempt := ⟨"cup", "player", "knots", 0, firstStep, "7"⟩

/-- The puzzle is opened and answered twice; then two answers pass the gate together, the catalog
checks both, and one of them is recorded. -/
def sampleMoves : List Move :=
  [.call (.named "first") (.trigger Contest.sampleOpening),
    .call (.named "first") (.submit Contest.sampleSubmission),
    .call (.named "second") (.submit Contest.sampleSubmission),
    .turn 0, .turn 1, .turn 0, .turn 1, .turn 0]

/-- The sample try after some answers. -/
def sampleTry (attempts : Nat) : Try Nat where
  id := 0
  key := sampleAttempt.key
  level := "EASY"
  start := Contest.sample.now
  attempts := attempts
  lastAnswer := some "7"
  lastMove := some Contest.sample.now

/-- The other answer is at the point of being recorded, and it was overtaken. -/
theorem overtaken_sample :
    let w := (begin Contest.sample [sampleAttempt, sampleAttempt]).run sampleMoves
    w.requests[1]? = some ⟨sampleAttempt, .judged false (some (sampleTry 2)) Contest.sample.now⟩ ∧
      w.contest.store.find? sampleAttempt.key = some (sampleTry 3) ∧
      Overtaken w.contest (some (sampleTry 2)) (sampleTry 3) := by
  intro w
  have hi : w.requests[1]? =
      some ⟨sampleAttempt, .judged false (some (sampleTry 2)) Contest.sample.now⟩ := by
    decide +kernel
  have hfind : w.contest.store.find? sampleAttempt.key = some (sampleTry 3) := by
    decide +kernel
  have hblocks : Blocks w.contest (sampleTry 3) := ⟨180000000, by decide +kernel⟩
  rcases blocks_iff_overtaken Contest.sample [sampleAttempt, sampleAttempt] sampleMoves hi with
    ⟨row, hrow, hiff, -⟩
  rw [hfind, Option.some.injEq] at hrow
  rw [← hrow] at hiff
  exact ⟨hi, hfind, hiff.1 hblocks⟩

/-- The cooldown does not hold in a rush: a submission is recorded on a try that the gate blocks. -/
theorem not_forall_not_blocks : ¬∀ (c : Contest) (attempts : List Attempt) (moves : List Move)
    (i : Nat) (a : Attempt) (correct : Bool) (seen : Option (Try Nat)) (time : Moment)
    (row t : Try Nat),
    ((begin c attempts).run moves).requests[i]? = some ⟨a, .judged correct seen time⟩ →
    ((begin c attempts).run moves).contest.store.find? a.key = some row →
    ((a.judged correct).run (.caller i) ((begin c attempts).run moves).contest).1 = .ok t →
      ¬Blocks ((begin c attempts).run moves).contest row := by
  intro h
  refine h Contest.sample [sampleAttempt, sampleAttempt] sampleMoves 1 sampleAttempt false
    (some (sampleTry 2)) Contest.sample.now (sampleTry 3) (sampleTry 4) ?_ ?_ ?_
    ⟨180000000, ?_⟩
  · decide +kernel
  · decide +kernel
  · decide +kernel
  · decide +kernel

end Rush

end PuzzleContest
