import PuzzleContest.Proofs.Twin

/-!
# Calls in contests that look the same

A call of a seat comes to the same in two contests that mirror each other for this seat, if neither
has a lock in use: to the same failure, or to results that differ only by the numbers of tries.

Main results:

- `Contest.AtRest`: a contest between calls.
- `Opening.echoes_runFrom`, `Submission.echoes_runFrom`: whole runs.
- `Call.echoes_run`: what comes of a whole call.
-/

namespace PuzzleContest

open PuzzleContest.Action PuzzleContest.Contest

/-! ## Whole runs -/

namespace Contest

/-- A contest between calls: its store is sound and cascaded, and nobody uses a lock. -/
structure AtRest (c : Contest) : Prop where
  store : c.store.Sound
  cascaded : c.store.Cascaded
  entries_eq : c.locks.entries = []

theorem AtRest.congr {c c' : Contest} (h : c.AtRest) (hagrees : c.Agrees c')
    (haround : c.SameAround c') : c'.AtRest :=
  ⟨hagrees.store_eq ▸ h.store, hagrees.store_eq ▸ h.cascaded, haround.entries_eq.trans h.entries_eq⟩

end Contest

/-- A read leaves a contest at rest. -/
theorem Action.IsRead.atRest {α : Type} {x : Action α} {c c' : Contest} {result : Except Failure α}
    (hx : x.IsRead) (hc : c.AtRest) (h : x c = (result, c')) : c'.AtRest := by
  have haround := hx.around c
  rw [h] at haround
  exact hc.congr (hx.agrees_of_eq h) haround

/-- So does a question to the catalog. -/
theorem Attempt.atRest_check {a : Attempt} {x : Competition} {c c' : Contest}
    {result : Except Failure Bool} (hc : c.AtRest) (h : a.check x c = (result, c')) :
    c'.AtRest := by
  have hrest := hc.congr (a.check_agrees x c) (a.check_around x c)
  rw [h] at hrest
  exact hrest

namespace Opening

variable {me : Holder} {o : Opening} {c₀ d₀ c d : Contest}

theorem runFrom_of_left {phase : Phase} (h : phase.result? = none) :
    runFrom me o phase c = runFrom me o (o.advance me phase c).1 (o.advance me phase c).2 := by
  rw [runFrom]
  split
  · rename_i result hresult
    rw [h] at hresult
    exact absurd hresult (by simp)
  · rfl

theorem runFrom_done (result : Except Failure (Try Nat)) :
    runFrom me o (.done result) c = (result, c) := by
  rw [runFrom]
  rfl

/-- Openings that keep abreast come to the same. -/
theorem echoes_runFrom {phase phase' : Phase}
    (h : Deed.Abreast me c₀ d₀ (.opening o phase) c (.opening o phase') d) :
    Echoes o.key.seat (Try.renumber blank) (runFrom me o phase c) (runFrom me o phase' d) := by
  fun_induction runFrom me o phase c generalizing phase' d with
  | case1 phase c result hresult =>
    rw [Phase.eq_done hresult] at h
    rcases h with ⟨-, -, -, -, -, -, htwin, hmirrors⟩
    cases htwin with
    | opening _ htwin =>
      cases htwin with
      | same =>
        rw [runFrom_done]
        exact ⟨rfl, hmirrors⟩
      | done hxy =>
        rw [runFrom_done]
        exact ⟨hxy, hmirrors⟩
  | case2 phase c hresult next =>
    rename_i ih
    have hleft : (Deed.opening o phase).isOver = false := by simp [Deed.isOver, hresult]
    have hleft' : (Deed.opening o phase').isOver = false := h.twin.isOver_eq.trans hleft
    have hresult' : phase'.result? = none := by simpa [Deed.isOver] using hleft'
    rw [runFrom_of_left hresult']
    exact ih (h.advance hleft)

/-- What comes of a whole opening in two contests that look the same. -/
theorem echoes_run (me : Holder) (o : Opening) (hc : c.AtRest) (hd : d.AtRest)
    (h : Mirrors o.key.seat c d) :
    Echoes o.key.seat (Try.renumber blank) (o.run me c) (o.run me d) := by
  have habreast : Deed.Abreast me c d (.opening o .arriving) c (.opening o .arriving) d :=
    ⟨hc.entries_eq, hd.entries_eq, since_arriving o hc.store hc.cascaded,
      since_arriving o hd.store hd.cascaded, Deed.apart_self rfl, Deed.apart_self rfl,
      .opening o (.same _), h⟩
  exact echoes_runFrom habreast

/-- A new number is given out exactly if something new is seen. -/
theorem issued_run_iff (me : Holder) (o : Opening) (hc : c.AtRest) :
    (o.run me c).2.store.issued = c.store.issued ↔
      (o.run me c).2.store.shown o.key.seat = c.store.shown o.key.seat := by
  rcases o.run_becomes me hc.store hc.cascaded with h | h
  · cases h with
    | same hagrees => simp [hagrees.store_eq]
  · cases h with
    | changed hdirectory hplan hnow hmoment hplayer hchange houtbox =>
      cases hchange with
      | opened hstep hindex hadd =>
        have hissued := congrArg Store.issued (Store.add?_eq_some_iff.1 hadd).2.2
        have hshown := Store.shown_add hadd o.key.seat
        rw [hissued, hshown, if_pos rfl]
        simp

/-- What comes of an opening whose level cannot be stored. -/
theorem echoes_runUnstorable (me : Holder) (o : Opening) (hc : c.AtRest) (hd : d.AtRest)
    (h : Mirrors o.key.seat c d) :
    Echoes o.key.seat (Try.renumber blank) (o.runUnstorable me c) (o.runUnstorable me d) := by
  have hrun := o.echoes_run me hc hd h
  have hissued : (o.run me d).2.store.issued = d.store.issued ↔
      (o.run me c).2.store.issued = c.store.issued := by
    rw [issued_run_iff me o hc, issued_run_iff me o hd, hrun.mirrors.shown_eq, h.shown_eq]
  unfold runUnstorable
  by_cases hnone : (o.run me c).2.store.issued = c.store.issued
  · simp only [if_pos hnone, if_pos (hissued.2 hnone)]
    exact hrun
  · have hnone' : ¬(o.run me d).2.store.issued = d.store.issued := fun heq => hnone (hissued.1 heq)
    simp only [if_neg hnone, if_neg hnone', hrun.mirrors.schedule_eq]
    exact ⟨rfl, h.scheduled _⟩

/-- Around an opening, the gates before it and the catalog after it come to the same. -/
theorem echoes_of_middle {middle : Action (Try Nat)}
    (hmiddle : ∀ c d : Contest, c.AtRest → d.AtRest → Mirrors o.key.seat c d →
      Echoes o.key.seat (Try.renumber blank) (middle c) (middle d))
    (hc : c.AtRest) (hd : d.AtRest) (h : Mirrors o.key.seat c d) :
    Echoes o.key.seat id ((do let x ← o.gate; let _ ← middle; o.fetch x) c)
      ((do let x ← o.gate; let _ ← middle; o.fetch x) d) := by
  refine (o.respects_gate c d h).bind fun x y c₁ d₁ hc₁ hd₁ hxy h₁ => ?_
  have hy : y = x := hxy
  have hrest : c₁.AtRest := o.isRead_gate.atRest hc hc₁
  have hrest' : d₁.AtRest := o.isRead_gate.atRest hd hd₁
  rw [hy]
  refine (hmiddle c₁ d₁ hrest hrest' h₁).bind fun _ _ c₂ d₂ _ _ _ h₂ => ?_
  exact o.respects_fetch x c₂ d₂ h₂

end Opening

namespace Submission

variable {me : Holder} {s : Submission} {c₀ d₀ c d : Contest}

theorem runFrom_of_left {phase : Phase} (h : phase.result? = none) :
    runFrom me s phase c = runFrom me s (s.advance me phase c).1 (s.advance me phase c).2 := by
  rw [runFrom]
  split
  · rename_i result hresult
    rw [h] at hresult
    exact absurd hresult (by simp)
  · rfl

theorem runFrom_done (result : Except Failure (Try Nat)) :
    runFrom me s (.done result) c = (result, c) := by
  rw [runFrom]
  rfl

/-- Submissions that keep abreast come to the same. -/
theorem echoes_runFrom {phase phase' : Phase}
    (h : Deed.Abreast me c₀ d₀ (.submission s phase) c (.submission s phase') d) :
    Echoes s.key.seat (Try.renumber blank) (runFrom me s phase c) (runFrom me s phase' d) := by
  fun_induction runFrom me s phase c generalizing phase' d with
  | case1 phase c result hresult =>
    rw [Phase.eq_done hresult] at h
    rcases h with ⟨-, -, -, -, -, -, htwin, hmirrors⟩
    cases htwin with
    | submission _ htwin =>
      cases htwin with
      | same =>
        rw [runFrom_done]
        exact ⟨rfl, hmirrors⟩
      | done hxy =>
        rw [runFrom_done]
        exact ⟨hxy, hmirrors⟩
  | case2 phase c hresult next =>
    rename_i ih
    have hleft : (Deed.submission s phase).isOver = false := by simp [Deed.isOver, hresult]
    have hleft' : (Deed.submission s phase').isOver = false := h.twin.isOver_eq.trans hleft
    have hresult' : phase'.result? = none := by simpa [Deed.isOver] using hleft'
    rw [runFrom_of_left hresult']
    exact ih (h.advance hleft)

/-- What comes of a whole submission in two contests that look the same. -/
theorem echoes_run (me : Holder) (s : Submission) (hc : c.AtRest) (hd : d.AtRest)
    (h : Mirrors s.key.seat c d) :
    Echoes s.key.seat (Try.renumber blank) (s.run me c) (s.run me d) := by
  have habreast : Deed.Abreast me c d (.submission s .arriving) c (.submission s .arriving) d :=
    ⟨hc.entries_eq, hd.entries_eq, since_arriving s hc.store hc.cascaded,
      since_arriving s hd.store hd.cascaded, Deed.apart_self rfl, Deed.apart_self rfl,
      .submission s (.same _), h⟩
  exact echoes_runFrom habreast

end Submission

/-! ## Whole calls -/

/-- What comes of an answer in two contests that look the same. -/
theorem Attempt.echoes_play (me : Holder) (a : Attempt) {c d : Contest} (hc : c.AtRest)
    (hd : d.AtRest) (h : Mirrors a.key.seat c d) :
    Echoes a.key.seat (Verdict.renumber blank) (a.play me c) (a.play me d) := by
  refine (a.respects_gate c d h).bind fun x y c₁ d₁ hc₁ hd₁ hxy h₁ => ?_
  have hy : y = x := hxy
  have hrest : c₁.AtRest := a.isRead_gate.atRest hc hc₁
  have hrest' : d₁.AtRest := a.isRead_gate.atRest hd hd₁
  rw [hy]
  refine (a.respects_check x c₁ d₁ h₁).bind fun v w c₂ d₂ hc₂ hd₂ hvw h₂ => ?_
  have hw : w = v := hvw
  have hchecked : c₂.AtRest := atRest_check hrest hc₂
  have hchecked' : d₂.AtRest := atRest_check hrest' hd₂
  rw [hw]
  refine ((a.judged v).echoes_run me hchecked hchecked' h₂).bind
    fun t u c₃ d₃ _ _ htu h₃ => ?_
  exact ⟨congrArg (fun t => Except.ok (Verdict.mk v t)) htu, h₃⟩

namespace Call

/-- The seat that a call is made from, or that it asks about. -/
def seat? : Call → Option Seat
  | .trigger o => some o.key.seat
  | .submit s => some s.key.seat
  | .visit o => some o.key.seat
  | .answer a => some a.key.seat
  | .ask q => q.seat?

end Call

/-- What comes of a call of a seat in two contests that look the same from there. -/
theorem Call.echoes_run (me : Holder) {call : Call} {seat : Seat} {c d : Contest}
    (hseat : call.seat? = some seat) (hc : c.AtRest) (hd : d.AtRest) (h : Mirrors seat c d) :
    Echoes seat (Answer.renumber blank) (call.run me c) (call.run me d) := by
  cases call with
  | trigger o =>
    obtain rfl : o.key.seat = seat := Option.some.inj hseat
    exact (o.echoes_run me hc hd h).map fun t u htu => congrArg Answer.entry htu
  | submit s =>
    obtain rfl : s.key.seat = seat := Option.some.inj hseat
    exact (s.echoes_run me hc hd h).map fun t u htu => congrArg Answer.entry htu
  | visit o =>
    obtain rfl : o.key.seat = seat := Option.some.inj hseat
    exact (Opening.echoes_of_middle (fun c d => o.echoes_run me) hc hd h).map
      fun value value' hvalue => congrArg Answer.document hvalue
  | answer a =>
    obtain rfl : a.key.seat = seat := Option.some.inj hseat
    exact (a.echoes_play me hc hd h).map fun v w hvw => congrArg Answer.verdict hvw
  | ask q => exact q.respects_run hseat c d h

end PuzzleContest
