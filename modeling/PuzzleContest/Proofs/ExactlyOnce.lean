import PuzzleContest.Proofs.Crowd

/-!
# Exactly once

Whatever the order in which openings and submissions take their steps, a key gets one try, the try
is announced once, and every submission that returns has been counted once.

Main results:

- `Deed.Stride.quiet`: a submission that is not recorded changes neither the store nor the outbox.
- `Submission.Phase.Fails`, `Crowd.fails_run`: a submission that has failed fails for good.
- `Crowd.ExactlyOnce`: what is promised of a key.
- `Crowd.exactlyOnce_run`: the promise is kept after every list of moves.
-/

namespace PuzzleContest

/-! ## Rows of a key -/

/-- A sound store has as many tries of a key as a look-up finds. -/
theorem Store.Sound.countP_key {s : Store} (hs : s.Sound) (key : Try.Key) :
    s.tries.countP (fun t => t.key = key) = (s.has key).toNat := by
  have hcount := List.nodup_iff_count_le_one.1 hs.keys_nodup key
  rw [List.count_eq_countP, List.countP_map] at hcount
  have hle : s.tries.countP (fun t => t.key = key) ≤ 1 := hcount
  unfold Store.has
  cases hfind : s.find? key with
  | none =>
    have hnone := Store.find?_eq_none_iff.1 hfind
    rw [Option.isSome_none, Bool.toNat_false, List.countP_eq_zero]
    intro t ht
    simpa using hnone t ht
  | some t =>
    have hpos : 0 < s.tries.countP fun t => t.key = key := by
      rw [List.countP_pos_iff]
      exact ⟨t, Store.mem_of_find? hfind, by simpa using Store.key_of_find? hfind⟩
    rw [Option.isSome_some, Bool.toNat_true]
    omega

/-! ## Submissions that fail -/

namespace Submission.Phase

/-- A submission has failed: all it has left to do is to leave the lock. -/
def Fails (e : Failure) : Phase → Prop
  | closing _ (.error e') | leaving _ (.error e') | done (.error e') => e' = e
  | _ => False

theorem Fails.isRecorded_eq {e : Failure} {phase : Phase} (h : phase.Fails e) :
    phase.isRecorded = false := by
  cases phase with
  | closing p result => cases result <;> first | rfl | exact absurd h id
  | leaving p result => cases result <;> first | rfl | exact absurd h id
  | done result => cases result <;> first | rfl | exact absurd h id
  | arriving | greeting | queueing | waiting | looking | reading | peeking | committing => rfl

/-- A failure is not forgotten by the next step. -/
theorem Fails.advance {e : Failure} {phase : Phase} (h : phase.Fails e) (me : Holder)
    (s : Submission) (c : Contest) : (s.advance me phase c).1.Fails e := by
  cases phase with
  | closing p result => cases result <;> exact h
  | leaving p result => cases result <;> first | exact h | exact absurd h id
  | done result => exact h
  | arriving | greeting | queueing | waiting | looking | reading | peeking | committing =>
    exact absurd h id

/-- Before it is recorded a submission has nothing to announce. -/
theorem tidings_of_not_isRecorded {phase : Phase} (h : phase.isRecorded = false) :
    phase.tidings = [] := by
  cases phase with
  | closing p result => cases result <;> first | rfl | exact absurd h (by simp [isRecorded])
  | leaving p result => cases result <;> first | rfl | exact absurd h (by simp [isRecorded])
  | arriving | greeting | queueing | waiting | looking | reading | peeking | committing | done => rfl

end Submission.Phase

/-- A finished try is refused when it is read under the lock. -/
theorem Submission.advance_reading_of_isSolved {s : Submission} {c : Contest} (hs : c.store.Sound)
    (h : c.store.isSolved s.key = true) (me : Holder) (p : Player) :
    s.advance me (.reading p) c = (.closing p (.error (.refused .alreadyFinished)), c) := by
  obtain ⟨row, hrow, hfinished⟩ := (Option.any_eq_true _ _).1 h
  have hindex : Store.holds s.key.index = true := by
    rw [← Store.key_of_find? hrow]
    exact hs.storable row (Store.mem_of_find? hrow)
  simp only [advance, judge_of_isFinished hindex hrow hfinished, afterJudge]

namespace Deed

variable {me : Holder} {s : Submission} {phase : Submission.Phase} {d' : Deed} {c c' : Contest}

/-- A submission that is not recorded after its step has changed neither the store nor the outbox. -/
theorem Stride.quiet (h : Stride me (.submission s phase) c d' c') (hnot : d'.isRecorded = false) :
    c'.store = c.store ∧ c'.outbox = c.outbox := by
  cases h with
  | read | entered | admitted | withdrawn => exact ⟨rfl, rfl⟩
  | @committed schedule store deal hcall hstage hnext htidings hrecorded hfits hmoment hchange hdeal =>
    have hanswer : deal.isAnswer = true := by
      cases deal with
      | opening level start => exact absurd hfits id
      | answer now answer correct => rfl
    rw [hdeal, hanswer] at hnot
    exact absurd hnot (by simp)
  | left hcall hstage hnext htidings hover hrecorded hplayer =>
    have hbefore : phase.isRecorded = false := hrecorded.symm.trans hnot
    have hquiet : (Deed.submission s phase).tidings = [] :=
      Submission.Phase.tidings_of_not_isRecorded hbefore
    rw [hquiet]
    exact ⟨rfl, List.append_nil _⟩

/-- Whether a deed is a submission on a key that has returned without failing. -/
def returnsOn (key : Try.Key) : Deed → Bool
  | submission s (.done (.ok _)) => decide (s.key = key)
  | _ => false

/-- At the end the recorded submissions are those that returned. -/
theorem returnsOn_of_isOver {d : Deed} (h : d.isOver = true) (key : Try.Key) :
    d.returnsOn key = d.recordsOn key := by
  cases d with
  | opening o phase => rfl
  | submission s phase =>
    cases phase with
    | done result => cases result <;> rfl
    | arriving | greeting | queueing | waiting | looking | reading | peeking | committing |
      closing | leaving => exact absurd h (by simp [isOver, Submission.Phase.result?])

/-- A call of another key is not counted. -/
theorem returnsOn_of_ne {d : Deed} {key : Try.Key} (h : d.key ≠ key) :
    d.returnsOn key = d.recordsOn key := by
  have hnone : d.recordsOn key = false := by simp [recordsOn, h]
  rw [hnone]
  cases d with
  | opening o phase => rfl
  | submission s phase =>
    cases phase with
    | done result =>
      cases result with
      | error e => rfl
      | ok recorded => exact decide_eq_false h
    | arriving | greeting | queueing | waiting | looking | reading | peeking | committing |
      closing | leaving => rfl

end Deed

namespace Crowd

variable {w : Crowd} {i : Nat} {s : Submission} {phase : Submission.Phase}

/-- A call stays the call that it is. -/
theorem exists_submission_step (h : w.deeds[i]? = some (.submission s phase)) (m : Move) :
    ∃ phase', (w.step m).deeds[i]? = some (.submission s phase') ∧
      (phase' = phase ∨ ∃ c, phase' = (s.advance (.caller i) phase c).1) := by
  cases m with
  | clock now => exact ⟨phase, h, .inl rfl⟩
  | turn j =>
    cases hj : w.deeds[j]? with
    | none => exact ⟨phase, by rw [step_turn_of_none hj, h], .inl rfl⟩
    | some d =>
      rw [step_turn_of_some hj]
      by_cases hij : j = i
      · subst hij
        rw [h, Option.some.injEq] at hj
        subst hj
        have hlt : j < w.deeds.length := (List.getElem?_eq_some_iff.1 h).1
        exact ⟨_, List.getElem?_set_self hlt, .inr ⟨w.contest, rfl⟩⟩
      · exact ⟨phase, by rw [List.getElem?_set_ne hij, h], .inl rfl⟩

/-- A submission that has failed fails for good. -/
theorem fails_run {e : Failure} (h : w.deeds[i]? = some (.submission s phase))
    (hfails : phase.Fails e) (moves : List Move) :
    ∃ phase', (w.run moves).deeds[i]? = some (.submission s phase') ∧ phase'.Fails e := by
  induction moves generalizing w phase with
  | nil => exact ⟨phase, h, hfails⟩
  | cons m rest ih =>
    obtain ⟨next, hnext, rfl | ⟨c, rfl⟩⟩ := exists_submission_step h m
    · exact ih hnext hfails
    · exact ih hnext (hfails.advance (.caller i) s c)

/-! ## The promise -/

/-- What is promised of a key in a crowd that started without tries. -/
structure ExactlyOnce (w : Crowd) (key : Try.Key) : Prop where
  /-- There is one try of the key at most. -/
  one_try : w.contest.store.tries.countP (fun t => t.key = key) ≤ 1
  /-- The try is announced as made once: by the call that made it, or this call has yet to do so. -/
  one_report : creations w.contest.outbox key + tally (fun d => Store.madeOf key d.tidings) w.deeds =
    w.contest.store.tries.countP fun t => t.key = key
  /-- An opening that returned names the try that is there. -/
  opened : ∀ (i : Nat) (o : Opening) (t : Try Nat), o.key = key →
    w.deeds[i]? = some (.opening o (.done (.ok t))) →
      ∃ row ∈ w.contest.store.tries, row.key = key ∧ row.id = t.id
  /-- Openings that returned name the same try. -/
  same_id : ∀ (i j : Nat) (o o' : Opening) (t t' : Try Nat), o.key = key → o'.key = key →
    w.deeds[i]? = some (.opening o (.done (.ok t))) →
    w.deeds[j]? = some (.opening o' (.done (.ok t'))) → t.id = t'.id
  /-- The attempts of the try are the submissions that have been recorded, returned or not. -/
  attempts_eq : ∀ row ∈ w.contest.store.tries, row.key = key →
    row.attempts = w.deeds.countP (Deed.recordsOn key)
  /-- A submission that returned found a try. -/
  recorded : 0 < w.deeds.countP (Deed.recordsOn key) →
    ∃ row ∈ w.contest.store.tries, row.key = key
  /-- When all calls of the key are at their end, the recorded submissions are those that returned. -/
  returned : (∀ d ∈ w.deeds, d.key = key → d.isOver = true) →
    w.deeds.countP (Deed.recordsOn key) = w.deeds.countP (Deed.returnsOn key)
  /-- One recorded submission is correct at most. -/
  one_correct : w.deeds.countP (Deed.solvesOn key) ≤ 1
  /-- A submission that reads the try after that is refused at once and for good. -/
  refused : 0 < w.deeds.countP (Deed.solvesOn key) →
    ∀ (i : Nat) (s : Submission) (p : Player), s.key = key →
      w.deeds[i]? = some (.submission s (.reading p)) →
      (w.step (.turn i)).contest = w.contest ∧ ∀ moves : List Move,
        ∃ phase, ((w.step (.turn i)).run moves).deeds[i]? = some (.submission s phase) ∧
          phase.Fails (.refused .alreadyFinished)
  /-- A submission changes the store and the outbox only by being recorded. -/
  quiet : ∀ (i : Nat) (s : Submission) (phase : Submission.Phase), s.key = key →
    w.deeds[i]? = some (.submission s phase) →
    (s.advance (.caller i) phase w.contest).1.isRecorded = false →
      (w.step (.turn i)).contest.store = w.contest.store ∧
        (w.step (.turn i)).contest.outbox = w.contest.outbox

variable {key : Try.Key}

/-- A sound crowd knows the try that an opening returned. -/
theorem Sound.opened (hw : w.Sound) {o : Opening} {t : Try Nat} (hkey : o.key = key)
    (h : w.deeds[i]? = some (.opening o (.done (.ok t)))) :
    ∃ row, w.contest.store.find? key = some row ∧ row.id = t.id := by
  obtain ⟨-, row, hrow, hid⟩ := hw.informed i _ h t rfl
  exact ⟨row, hkey ▸ hrow, hid⟩

/-- A sound crowd has counted the submissions of a try that is there. -/
theorem Sound.attempts_of_mem (hw : w.Sound) {row : Try Nat} (hrow : row ∈ w.contest.store.tries)
    (hkey : row.key = key) : row.attempts = w.deeds.countP (Deed.recordsOn key) := by
  have hfind := (Store.find?_eq_some_iff hw.store).2 ⟨hrow, hkey⟩
  have hattempts := hw.attempts key
  unfold Store.attemptsOf at hattempts
  rw [hfind] at hattempts
  exact hattempts

/-- Where a submission has been recorded there is a try. -/
theorem Sound.exists_of_recorded (hw : w.Sound) (h : 0 < w.deeds.countP (Deed.recordsOn key)) :
    ∃ row ∈ w.contest.store.tries, row.key = key := by
  have hattempts := hw.attempts key
  unfold Store.attemptsOf at hattempts
  cases hfind : w.contest.store.find? key with
  | none =>
    rw [hfind] at hattempts
    simp only [Option.map_none, Option.getD_none] at hattempts
    omega
  | some row => exact ⟨row, Store.mem_of_find? hfind, Store.key_of_find? hfind⟩

/-- In a sound crowd the promise is kept. -/
theorem Sound.exactlyOnce (hw : w.Sound) (key : Try.Key) : w.ExactlyOnce key where
  one_try := by
    rw [hw.store.countP_key key]
    cases w.contest.store.has key <;> decide
  one_report := by
    rw [hw.store.countP_key key]
    exact (hw.made key).symm
  opened := by
    intro i o t hkey h
    obtain ⟨row, hrow, hid⟩ := hw.opened hkey h
    exact ⟨row, Store.mem_of_find? hrow, Store.key_of_find? hrow, hid⟩
  same_id := by
    intro i j o o' t t' hkey hkey' h h'
    obtain ⟨row, hrow, hid⟩ := hw.opened hkey h
    obtain ⟨row', hrow', hid'⟩ := hw.opened hkey' h'
    rw [hrow, Option.some.injEq] at hrow'
    rw [← hid, ← hid', hrow']
  attempts_eq row hrow hkey := hw.attempts_of_mem hrow hkey
  recorded := hw.exists_of_recorded
  returned := by
    intro hover
    refine List.countP_congr fun d hd => ?_
    by_cases hkey : d.key = key
    · rw [Deed.returnsOn_of_isOver (hover d hd hkey)]
    · rw [Deed.returnsOn_of_ne hkey]
  one_correct := by
    rw [← hw.solved key]
    cases w.contest.store.isSolved key <;> decide
  refused := by
    intro hsolves i s p hkey h
    have hsolved : w.contest.store.isSolved s.key = true := by
      rw [← hw.solved key] at hsolves
      rw [hkey]
      cases hcase : w.contest.store.isSolved key with
      | true => rfl
      | false => exact absurd hsolves (by simp [hcase])
    have hadvance := Submission.advance_reading_of_isSolved hw.store hsolved (.caller i) p
    have hstep := step_turn_of_some h
    simp only [Deed.advance, hadvance] at hstep
    rw [hstep]
    refine ⟨rfl, fun moves => ?_⟩
    have hlt : i < w.deeds.length := (List.getElem?_eq_some_iff.1 h).1
    -- The refusal is decided here; what others do later does not reach it.
    have hfails : (Submission.Phase.closing p (.error (.refused .alreadyFinished))).Fails
        (.refused .alreadyFinished) := rfl
    exact fails_run (List.getElem?_set_self hlt) hfails moves
  quiet := by
    intro i s phase hkey h hnot
    obtain ⟨hstride, -⟩ :=
      Deed.stride_advance (.caller i) hw.store hw.cascaded (hw.informed i _ h)
    rw [step_turn_of_some h]
    exact hstride.quiet hnot

/-- However openings and submissions alternate, a key gets one try with one announcement, and every
submission is counted once, the last of them being the correct one. -/
theorem exactlyOnce_run (c : Contest) (calls : List (Opening ⊕ Submission)) (moves : List Move)
    (key : Try.Key) : ((begin c calls).run moves).ExactlyOnce key :=
  (sound_run c calls moves).exactlyOnce key

end Crowd

end PuzzleContest
