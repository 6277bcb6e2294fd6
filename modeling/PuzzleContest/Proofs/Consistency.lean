import PuzzleContest.Proofs.Chronicle
import PuzzleContest.Proofs.Growth

/-!
# Tries that agree with themselves

What a try says of itself fits together: who has not answered has no answer and no move, who has not
finished has no points, and the score of a finished try can be computed anew from its other fields, as
the storage gives them back.  While the clock does not go back, nobody moves before the start.

Main results:

- `Try.Consistent`: the fields of a try fit together.
- `Store.Leads.consistent`: deals keep them together.
- `Try.Timely`: a try has been started, and its last move was made after its start.
- `Crowd.Timely.run`, `Contest.timely_season`: it is so while the clock does not go back.
- `Contest.consistent_run`: after all calls in universal time tries are consistent.
-/

namespace PuzzleContest

/-! ## Moments -/

namespace Moment

/-- Readings of a clock that does not go back. -/
def Forward (readings : List Moment) : Prop := readings.Pairwise fun m n => m.instant ≤ n.instant

instance (readings : List Moment) : Decidable (Forward readings) :=
  inferInstanceAs (Decidable (readings.Pairwise fun m n => m.instant ≤ n.instant))

theorem instant_bare {m : Moment} (h : m.IsUtc) : m.bare.instant = m.instant := by
  unfold IsUtc at h
  simp [instant, bare, h]

end Moment

/-! ## Consistent tries -/

namespace Try

variable {ι : Type} {t u : Try ι} {now : Moment} {answer : String} {correct : Bool}

/-- The fields of a try fit together. -/
structure Consistent (t : Try ι) : Prop where
  attempts_nonneg : 0 ≤ t.attempts
  /-- Who has not answered has no answer and no move, and who has answered has both. -/
  lastAnswer_iff : t.attempts = 0 ↔ t.lastAnswer = none
  lastMove_iff : t.attempts = 0 ↔ t.lastMove = none
  /-- Who has not finished has no points. -/
  score_open : t.finish = none → t.score = .finite false 0
  /-- Who has finished has answered, has not moved since, and has the score that follows from the other
  fields. -/
  score_finished : ∀ stop, t.finish = some stop → 1 ≤ t.attempts ∧ t.lastMove = some stop ∧
    Score.score? t.level t.key.index t.key.step t.start stop t.attempts = some t.score

theorem consistent_fresh (id : Nat) (key : Key) (level : String) (start : Moment) :
    (Store.fresh id key level start).Consistent where
  attempts_nonneg := Int.le_refl 0
  lastAnswer_iff := ⟨fun _ => rfl, fun _ => rfl⟩
  lastMove_iff := ⟨fun _ => rfl, fun _ => rfl⟩
  score_open _ := rfl
  score_finished stop h := absurd h (by simp [Store.fresh])

/-- An answer to an unfinished try keeps its fields together: the score of a correct one counts it. -/
theorem Consistent.answered (h : t.Consistent) (hopen : t.isFinished = false)
    (hanswer : t.answered? now answer correct = some u) : u.Consistent := by
  have hnone : t.finish = none := by simpa [isFinished] using hopen
  have hu := answered_of_eq_some hanswer
  have hscore := (eq_of_answered? hanswer).2
  have hnonneg := h.attempts_nonneg
  have hpos : u.attempts ≠ 0 := by
    rw [hu.attempts_eq]
    omega
  refine ⟨?_, ?_, ?_, ?_, ?_⟩
  · rw [hu.attempts_eq]
    omega
  · rw [hu.lastAnswer_eq]
    exact iff_of_false hpos (by simp)
  · rw [hu.lastMove_eq]
    exact iff_of_false hpos (by simp)
  · intro hfinish
    cases correct with
    | true =>
      rw [hu.finish_eq] at hfinish
      exact absurd hfinish (by simp)
    | false =>
      exact hscore.trans (h.score_open hnone)
  · intro stop hstop
    rw [hu.finish_eq] at hstop
    cases correct with
    | true =>
      have hnow : now = stop := by simpa using hstop
      subst hnow
      refine ⟨?_, hu.lastMove_eq, ?_⟩
      · rw [hu.attempts_eq]
        omega
      · rw [hu.level_eq, hu.key_eq, hu.start_eq]
        exact hscore
    | false =>
      rw [hnone] at hstop
      exact absurd hstop (by simp)

/-- The score follows as well from the fields as the storage gives them back. -/
theorem Consistent.bare (h : t.Consistent) (hutc : t.IsUtc) : (t.mapMoments Moment.bare).Consistent where
  attempts_nonneg := h.attempts_nonneg
  lastAnswer_iff := h.lastAnswer_iff
  lastMove_iff := h.lastMove_iff.trans Option.map_eq_none_iff.symm
  score_open hfinish := h.score_open (Option.map_eq_none_iff.1 hfinish)
  score_finished stop hstop := by
    rcases Option.map_eq_some_iff.1 hstop with ⟨m, hm, rfl⟩
    rcases h.score_finished m hm with ⟨hattempts, hmove, hscore⟩
    refine ⟨hattempts, congrArg (Option.map Moment.bare) hmove, ?_⟩
    have hsince : m.bare.since t.start.bare = m.since t.start := by
      unfold Moment.since
      rw [Moment.instant_bare (hutc.finish m hm), Moment.instant_bare hutc.start]
    refine Eq.trans ?_ hscore
    unfold Score.score? Score.total Score.elapsedMinutes
    simp only [mapMoments, hsince]

end Try

namespace Store

variable {P : Moment → Prop} {s s' : Store} {key : Try.Key} {deal : Deal} {tidings : List Tiding}

theorem Change.consistent (hs : s.Sound) (h : s.Change key deal s' tidings)
    (hrows : ∀ t ∈ s.tries, t.Consistent) : ∀ t ∈ s'.tries, t.Consistent := by
  intro t ht
  have hfind := (find?_eq_some_iff (h.sound hs)).2 ⟨ht, rfl⟩
  cases h.fate hs t.key with
  | untouched hsame => exact hrows t (mem_of_find? (hsame.symm.trans hfind))
  | made _ hfresh hfind' =>
    rw [hfind, Option.some.injEq] at hfind'
    rw [hfind', hfresh]
    exact Try.consistent_fresh ..
  | @answered row u _ _ _ hkey hdeal hrow hopen hanswer hfind' htold =>
    rw [hfind, Option.some.injEq] at hfind'
    rw [hfind']
    exact (hrows row (mem_of_find? hrow)).answered hopen hanswer

/-- Deals keep the fields of tries together. -/
theorem Leads.consistent (h : Leads P s s') (hs : s.Sound) (hrows : ∀ t ∈ s.tries, t.Consistent) :
    ∀ t ∈ s'.tries, t.Consistent := by
  induction h with
  | refl => exact hrows
  | tail hleads hstep ih =>
    rcases hstep with ⟨key, deal, tidings, hchange, -⟩
    exact hchange.consistent (Leads.sound hleads hs) ih

/-- Deals in universal time leave tries in universal time. -/
theorem Leads.isUtc (h : Leads Moment.IsUtc s s') (hrows : ∀ t ∈ s.tries, t.IsUtc) :
    ∀ t ∈ s'.tries, t.IsUtc := by
  induction h with
  | refl => exact hrows
  | tail _ hstep ih =>
    rcases hstep with ⟨key, deal, tidings, hchange, hmoment⟩
    rw [hchange.tries_eq]
    exact forall_mem_tell ih (hchange.isUtc ih hmoment)

end Store

/-! ## A clock that does not go back -/

namespace Try

variable {ι : Type} {t u : Try ι} {now later : Moment}

/-- A try has been started by now, and its last move was not made before its start. -/
structure Timely (now : Moment) (t : Try ι) : Prop where
  start_le : t.start.instant ≤ now.instant
  start_le_lastMove : ∀ m, t.lastMove = some m → t.start.instant ≤ m.instant

theorem Timely.mono (h : t.Timely now) (hle : now.instant ≤ later.instant) : t.Timely later :=
  ⟨Int.le_trans h.start_le hle, h.start_le_lastMove⟩

theorem timely_fresh {start : Moment} (hle : start.instant ≤ now.instant) (id : Nat) (key : Key)
    (level : String) : (Store.fresh id key level start).Timely now :=
  ⟨hle, fun m hm => absurd hm (by simp [Store.fresh])⟩

theorem Answered.timely {moment : Moment} {answer : String} {correct : Bool}
    (h : t.Answered u moment answer correct) (ht : t.Timely now)
    (hle : t.start.instant ≤ moment.instant) : u.Timely now where
  start_le := h.start_eq ▸ ht.start_le
  start_le_lastMove m hm := by
    rw [h.lastMove_eq, Option.some.injEq] at hm
    rw [h.start_eq, ← hm]
    exact hle

end Try

/-- A deal at a time that has been read from the clock leaves all tries timely; a try that is answered
has been started before that time. -/
theorem Store.Change.timely {s s' : Store} {key : Try.Key} {deal : Deal} {tidings : List Tiding}
    {now : Moment} (h : s.Change key deal s' tidings) (hrows : ∀ t ∈ s.tries, t.Timely now)
    (hnow : deal.moment.instant ≤ now.instant)
    (hstarted : deal.isAnswer = true → ∀ t ∈ s.tries, t.key = key →
      t.start.instant ≤ deal.moment.instant) : ∀ t ∈ s'.tries, t.Timely now := by
  have htidings : ∀ n ∈ tidings, n.1.Timely now := by
    have hanswered : ∀ {row u : Try Nat} {moment : Moment} {answer : String} {correct : Bool},
        deal = .answer moment answer correct → s.find? key = some row →
          row.answered? moment answer correct = some u → u.Timely now := by
      intro row u moment answer correct hdeal hrow hanswer
      have hmem := mem_of_find? hrow
      subst hdeal
      exact (Try.answered_of_eq_some hanswer).timely (hrows row hmem)
        (hstarted rfl row hmem (key_of_find? hrow))
    intro n hn
    cases h with
    | opened hstep hindex hadd =>
      rw [List.mem_singleton.1 hn, (add?_eq_some_iff.1 hadd).2.1]
      exact Try.timely_fresh hnow ..
    | counted hrow hopen hanswer hlast =>
      rw [List.mem_singleton.1 hn]
      exact hanswered rfl hrow hanswer
    | solved hstep hrow hopen hanswer hadd =>
      rcases List.mem_cons.1 hn with rfl | hn
      · exact hanswered rfl hrow hanswer
      · rw [List.mem_singleton.1 hn, (add?_eq_some_iff.1 hadd).2.1]
        exact Try.timely_fresh hnow ..
  rw [h.tries_eq]
  exact forall_mem_tell hrows htidings

namespace Deed

variable {me : Holder} {d d' : Deed} {c c' : Contest}

theorem Stride.call_eq (h : Stride me d c d' c') : d'.call = d.call := by
  cases h with
  | read hkeeps | entered hkeeps | admitted hkeeps | withdrawn hkeeps => exact hkeeps.call_eq
  | committed hcall | left hcall => exact hcall

/-- A step leaves the store as it is, or it is a deal at the time that the deed has read. -/
theorem Stride.store_cases (h : Stride me d c d' c') : c'.store = c.store ∨
    ∃ deal tidings, Fits d.call deal ∧ d.moment? = some deal.moment ∧
      c.store.Change d.key deal c'.store tidings := by
  cases h with
  | read | entered | admitted | withdrawn | left => exact .inl rfl
  | committed _ _ _ _ _ hfits hmoment hchange _ => exact .inr ⟨_, _, hfits, hmoment, hchange⟩

/-- A submission that has read the clock has found the try of its key before. -/
theorem Informed.exists_row {directory : Directory} {s : Store} {m : Moment}
    (h : d.Informed directory s) (hm : d.moment? = some m) (hsubmission : d.call.isRight = true) :
    ∃ row ∈ s.tries, row.key = d.key := by
  cases d with
  | opening o phase => exact absurd hsubmission (by simp [call])
  | submission sub phase =>
    have hjudged : ∀ {t : Try Nat}, sub.Judged s t → ∃ row ∈ s.tries, row.key = sub.key := by
      rintro t ⟨row, now, hrow, -⟩
      exact ⟨row, Store.mem_of_find? hrow, Store.key_of_find? hrow⟩
    cases phase with
    | peeking p t now => exact hjudged h.2.1
    | committing p t next => exact hjudged h.2.1
    | arriving | greeting | queueing | waiting | looking | reading | closing | leaving | done =>
      exact absurd hm (by simp [moment?, Submission.Phase.moment?])

end Deed

namespace Crowd

/-- While calls run together, tries are timely, and so are the calls that have read the clock: the try
that a submission is about to answer has been started before. -/
structure Timely (w : Crowd) : Prop where
  rows : ∀ t ∈ w.contest.store.tries, t.Timely w.contest.now
  moment_le : ∀ (i : Nat) (d : Deed) (m : Moment), w.deeds[i]? = some d → d.moment? = some m →
    m.instant ≤ w.contest.now.instant
  start_le : ∀ (i : Nat) (d : Deed) (m : Moment), w.deeds[i]? = some d → d.moment? = some m →
    d.call.isRight = true → ∀ t ∈ w.contest.store.tries, t.key = d.key →
      t.start.instant ≤ m.instant

variable {w : Crowd}

theorem timely_begin (c : Contest) (calls : List (Opening ⊕ Submission)) : (begin c calls).Timely := by
  have hnone : ∀ (i : Nat) (d : Deed) (m : Moment), (begin c calls).deeds[i]? = some d →
      d.moment? ≠ some m := by
    intro i d m hi
    simp only [begin, List.getElem?_map, Option.map_eq_some_iff] at hi
    rcases hi with ⟨call, -, rfl⟩
    cases call <;> simp [Deed.begin, Deed.moment?, Opening.Phase.moment?, Submission.Phase.moment?]
  exact ⟨fun t ht => absurd ht List.not_mem_nil, fun i d m hi hm => absurd hm (hnone i d m hi),
    fun i d m hi hm => absurd hm (hnone i d m hi)⟩

theorem Timely.turn (ht : w.Timely) (hw : w.Sound) {i : Nat} {d : Deed} (hi : w.deeds[i]? = some d) :
    Timely ⟨(d.advance (.caller i) w.contest).2,
      w.deeds.set i (d.advance (.caller i) w.contest).1⟩ := by
  have hmoment? : ∀ {m}, (d.advance (.caller i) w.contest).1.moment? = some m →
      m = w.contest.now ∨ d.moment? = some m := Deed.moment?_advance
  have hstride := (Deed.stride_advance (.caller i) hw.store hw.cascaded (hw.informed i d hi)).1
  generalize d.advance (.caller i) w.contest = next at hmoment? hstride
  rcases next with ⟨d', c'⟩
  have hnow : c'.now = w.contest.now := hstride.now_eq
  have hkeeps : w.contest.store.Keeps c'.store := by
    rcases hstride.store_cases with hsame | ⟨deal, tidings, -, -, hchange⟩
    · rw [hsame]
      exact hw.store.keeps_refl
    · exact hchange.keeps hw.store
  have hrows : ∀ t ∈ c'.store.tries, t.Timely w.contest.now := by
    rcases hstride.store_cases with hsame | ⟨deal, tidings, hfits, hm, hchange⟩
    · rw [hsame]
      exact ht.rows
    · refine hchange.timely ht.rows (ht.moment_le i d _ hi hm) fun hanswer => ?_
      refine ht.start_le i d _ hi hm ?_
      cases hcall : d.call with
      | inl o =>
        rw [hcall] at hfits
        cases deal with
        | opening level start => exact absurd hanswer (by simp [Deal.isAnswer])
        | answer now answer correct => exact absurd hfits id
      | inr s => rfl
  -- A call has read the clock just now, or it had read it before.
  have hread : ∀ (j : Nat) (e : Deed) (m : Moment), (w.deeds.set i d')[j]? = some e →
      e.moment? = some m → m = w.contest.now ∨
        ∃ old : Deed, w.deeds[j]? = some old ∧ old.moment? = some m ∧ old.call = e.call := by
    intro j e m hj hm
    rcases getElem?_set_cases hj with ⟨rfl, rfl⟩ | ⟨-, hold⟩
    · rcases hmoment? hm with hm | hm
      · exact .inl hm
      · exact .inr ⟨d, hi, hm, hstride.call_eq.symm⟩
    · exact .inr ⟨e, hold, hm, rfl⟩
  refine ⟨?_, ?_, ?_⟩
  · change ∀ t ∈ c'.store.tries, t.Timely c'.now
    rw [hnow]
    exact hrows
  · intro j e m hj hm
    change m.instant ≤ c'.now.instant
    rw [hnow]
    rcases hread j e m hj hm with rfl | ⟨old, hold, hm, -⟩
    · exact Int.le_refl _
    · exact ht.moment_le j old m hold hm
  · intro j e m hj hm hright t hmem hkey
    rcases hread j e m hj hm with rfl | ⟨old, hold, hm, hcall⟩
    · exact (hrows t hmem).start_le
    · -- The try was there before, and its start stays.
      have hkey' : old.key = e.key := (Deed.key_eq_of_call hcall.symm).symm
      rw [← hcall] at hright
      rcases (hw.informed j old hold).exists_row hm hright with ⟨row, hrow, hrowKey⟩
      rcases hkeeps row hrow with ⟨u, -, hgrows, honly⟩
      have htu : t = u := honly t hmem (.inr (hkey.trans (hkey'.symm.trans hrowKey.symm)))
      rw [htu, hgrows.start_eq]
      exact ht.start_le j old m hold hm hright row hrow hrowKey

theorem Timely.clock (ht : w.Timely) {now : Moment}
    (hle : w.contest.now.instant ≤ now.instant) : (w.step (.clock now)).Timely where
  rows t hmem := (ht.rows t hmem).mono hle
  moment_le i d m hi hm := Int.le_trans (ht.moment_le i d m hi hm) hle
  start_le := ht.start_le

/-- Tries stay timely while the clock does not go back. -/
theorem Timely.run (ht : w.Timely) (hw : w.Sound) {moves : List Move} {later : List Moment}
    (hforward : Moment.Forward (w.contest.now :: (moves.filterMap Move.clock? ++ later))) :
    (w.run moves).Timely ∧ Moment.Forward ((w.run moves).contest.now :: later) := by
  induction moves generalizing w with
  | nil => exact ⟨ht, hforward⟩
  | cons move rest ih =>
    cases move with
    | clock now =>
      rcases List.pairwise_cons.1 hforward with ⟨hfirst, hrest⟩
      exact ih (ht.clock (hfirst now List.mem_cons_self)) (hw.step (.clock now)) hrest
    | turn i =>
      have hstep : (w.step (.turn i)).Timely ∧
          (w.step (.turn i)).contest.now = w.contest.now := by
        cases hi : w.deeds[i]? with
        | none =>
          rw [step_turn_of_none hi]
          exact ⟨ht, rfl⟩
        | some d =>
          rw [step_turn_of_some hi]
          exact ⟨ht.turn hw hi,
            (Deed.stride_advance (.caller i) hw.store hw.cascaded (hw.informed i d hi)).1.now_eq⟩
      refine ih hstep.1 (hw.step (.turn i)) ?_
      rw [hstep.2]
      exact hforward

end Crowd

namespace Contest

variable {c : Contest}

/-- Events leave tries timely while the clock does not go back. -/
theorem timely_season (hs : c.store.Sound) (hc : c.store.Cascaded)
    (ht : ∀ t ∈ c.store.tries, t.Timely c.now) {events : List Event}
    (hforward : Moment.Forward (c.now :: events.filterMap Event.clock?)) :
    ∀ t ∈ (c.season events).store.tries, t.Timely (c.season events).now := by
  induction events generalizing c with
  | nil => exact ht
  | cons e rest ih =>
    rcases sound_after hs hc e with ⟨hs', hc'⟩
    rcases after_cases hs hc e with ⟨x, rfl⟩ | ⟨what, hbecomes, -⟩
    · rcases List.pairwise_cons.1 hforward with ⟨hfirst, hrest⟩
      exact ih hs' hc' (fun t hmem => (ht t hmem).mono (hfirst x.now List.mem_cons_self)) hrest
    · have hnow := hbecomes.now_eq
      have hrows : ∀ t ∈ (c.after e).store.tries, t.Timely (c.after e).now := by
        rw [hnow]
        cases hbecomes with
        | same hagrees =>
          rw [hagrees.store_eq]
          exact ht
        | changed _ _ _ hmoment _ hchange _ =>
          refine hchange.timely ht (Int.le_of_eq (congrArg _ hmoment)) fun _ t hmem _ => ?_
          rw [hmoment]
          exact (ht t hmem).start_le
      refine ih hs' hc' hrows ?_
      rw [hnow]
      refine hforward.sublist (.cons_cons _ ?_)
      exact (List.sublist_cons_self e rest).filterMap _

/-! ## Consistent contests -/

/-- The readings of the clock in a run: calls that run together, and then events. -/
def readings (c : Contest) (moves : List Crowd.Move) (events : List Event) : List Moment :=
  c.now :: (moves.filterMap Crowd.Move.clock? ++ events.filterMap Event.clock?)

/-- After calls that start without tries and keep universal time, first some that run together and then
any others, tries as the storage gives them back are consistent, and if the clock never went back nobody
has moved before the start. -/
theorem consistent_run (c : Contest) (calls : List (Opening ⊕ Submission)) (moves : List Crowd.Move)
    (events : List Event) (hutc : ∀ m ∈ c.readings moves events, m.IsUtc) :
    ∀ row ∈ (((Crowd.begin c calls).run moves).contest.season events).store.tries,
      (row.mapMoments Moment.bare).Consistent ∧
        (Moment.Forward (c.readings moves events) →
          ∀ m, (row.mapMoments Moment.bare).lastMove = some m →
            (row.mapMoments Moment.bare).start.instant ≤ m.instant) := by
  have hcrowd := Crowd.sound_run c calls moves
  have hnow : c.now.IsUtc := hutc _ List.mem_cons_self
  rcases (Crowd.sound_begin c calls).leads_run (Crowd.dated_begin hnow calls) moves
    (fun m hm => hutc m (List.mem_cons_of_mem _ (List.mem_append_left _ hm))) with ⟨htogether, hdated⟩
  have hevents := leads_season hcrowd.store hcrowd.cascaded hdated.now events
    (fun m hm => hutc m (List.mem_cons_of_mem _ (List.mem_append_right _ hm)))
  have hleads := htogether.trans hevents
  have hisUtc := Store.Leads.isUtc hleads fun t ht => absurd ht List.not_mem_nil
  have hconsistent := Store.Leads.consistent hleads Store.sound_empty
    fun t ht => absurd ht List.not_mem_nil
  intro row hrow
  refine ⟨(hconsistent row hrow).bare (hisUtc row hrow), fun hforward m hm => ?_⟩
  rcases (Crowd.timely_begin c calls).run (Crowd.sound_begin c calls) hforward with
    ⟨htimely, hforward'⟩
  have hrows := timely_season hcrowd.store hcrowd.cascaded htimely.rows hforward'
  rcases Option.map_eq_some_iff.1 hm with ⟨last, hlast, rfl⟩
  change row.start.bare.instant ≤ last.bare.instant
  rw [Moment.instant_bare (hisUtc row hrow).start,
    Moment.instant_bare ((hisUtc row hrow).lastMove last hlast)]
  exact (hrows row hrow).start_le_lastMove last hlast

/-- A puzzle is opened, a minute later its first step is answered by somebody who came in the meantime,
and then it is solved. -/
theorem consistent_run_sample :
    let later : Moment := { wall := sample.now.wall + 60000000, offset := some 0 }
    let moves := List.replicate 10 (.turn 0) ++ .clock later :: List.replicate 10 (.turn 1)
    let events : List Event := [
      .call (.caller 2) (.submit { sampleSubmission with answer := "42", correct := true })]
    let crowd := Crowd.begin sample [.inl sampleOpening, .inr sampleSubmission]
    let tries := ((crowd.run moves).contest.season events).store.tries
    (∀ m ∈ sample.readings moves events, m.IsUtc) ∧ Moment.Forward (sample.readings moves events) ∧
      (∀ row ∈ tries, (row.mapMoments Moment.bare).Consistent ∧
        ∀ m, (row.mapMoments Moment.bare).lastMove = some m →
          (row.mapMoments Moment.bare).start.instant ≤ m.instant) ∧
      tries.map (·.attempts) = [2, 0] ∧
      tries.map (fun t => some t.score) = [Binary64.ofInt? 35, Binary64.ofInt? 0] := by
  intro later moves events crowd tries
  have hutc : ∀ m ∈ sample.readings moves events, m.IsUtc := by
    unfold Moment.IsUtc
    decide +kernel
  have hforward : Moment.Forward (sample.readings moves events) := by decide +kernel
  refine ⟨hutc, hforward, fun row hrow => ?_, by decide +kernel, by decide +kernel⟩
  rcases consistent_run sample _ moves events hutc row hrow with ⟨hconsistent, htimely⟩
  exact ⟨hconsistent, htimely hforward⟩

end Contest

end PuzzleContest
