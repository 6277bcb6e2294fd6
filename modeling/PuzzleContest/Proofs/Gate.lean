import PuzzleContest.Proofs.Solo

/-!
# Gates

Whoever opens a puzzle or answers it comes to the tries through gates, which only read.  A gate that
was passed tells what held of the contest.

Main results:

- `Contest.mayView_eq_true_iff`: what is visible while the storage is in order.
- `Opening.gate_eq_ok`: an opening that passes its gates is of a visible puzzle.
- `Attempt.gate_eq_ok`: an answer that passes its gates has found an unfinished try without a
  cooldown.
-/

namespace PuzzleContest

open PuzzleContest.Action

namespace Contest

variable {c c' : Contest} {competition player : String} {index : Int}

/-- A permission that was read is that of the store. -/
theorem readView_eq_ok {b : Bool} (h : readView competition player index c = (.ok b, c')) :
    b = c.store.unlocks competition player index := by
  unfold readView at h
  by_cases hindex : index = 0
  · rw [if_pos hindex, pure_apply, Prod.mk.injEq, Except.ok.injEq] at h
    simp [Store.unlocks, hindex, ← h.1]
  · rw [if_neg hindex] at h
    rcases bind_eq_ok h with ⟨_, c₁, hcheck, hview⟩
    have hstore := ((isRead_checkInteger _).agrees_of_eq hcheck).store_eq
    rw [← hstore]
    exact (Except.ok.inj (congrArg Prod.fst hview)).symm

/-- Who was not refused may see the puzzle. -/
theorem ensureVisible_eq_ok (h : ensureVisible competition player index c = (.ok (), c')) :
    c.store.unlocks competition player index = true := by
  rcases bind_eq_ok h with ⟨_, c₁, hseek, hvisible⟩
  rcases bind_eq_ok hvisible with ⟨b, c₂, hread, hgranted⟩
  have hstore := ((isRead_seekView index).agrees_of_eq hseek).store_eq
  rw [← hstore, ← readView_eq_ok hread]
  cases b with
  | true => rfl
  | false => exact absurd (congrArg Prod.fst hgranted) (by simp [refuse, fail])

/-- While the storage is in order, a puzzle is visible exactly when it is the first one, or the index
before it can be looked up and is solved. -/
theorem mayView_eq_true_iff (horder : c.schedule.sessions = []) :
    (mayView competition player index c).1 = .ok true ↔
      index = 0 ∨ Store.holds (index - 1) = true ∧
        c.store.unlocks competition player index = true := by
  unfold mayView seekView readView
  by_cases hindex : index = 0
  · simp [hindex, bind_apply, pure_apply]
  · have hsession : session c = (.ok (), c) := by simp [session, horder]
    by_cases hholds : Store.holds (index - 1) = true
    · simp [hindex, hholds, bind_apply, pure_apply, hsession, checkInteger, view]
    · simp [hindex, hholds, bind_apply, hsession, checkInteger, fail]

theorem findCompetition_eq_ok {id : String} {x : Competition}
    (h : findCompetition id c = (.ok x, c')) : c.directory.competition? id = some x := by
  rcases bind_eq_ok h with ⟨_, c₁, hsession, hread⟩
  rcases bind_eq_ok hread with ⟨found, c₂, hview, hfound⟩
  have hdirectory := (isRead_session.agrees_of_eq hsession).directory_eq
  have hvalue : c₁.directory.competition? id = found := Except.ok.inj (congrArg Prod.fst hview)
  rw [← hdirectory, hvalue]
  cases found with
  | none => exact absurd (congrArg Prod.fst hfound) (by simp [refuse, fail])
  | some y => exact congrArg some (Except.ok.inj (congrArg Prod.fst hfound))

end Contest

theorem checkStep_eq_ok {step : Int} {c c' : Contest} (h : checkStep step c = (.ok (), c')) :
    step = firstStep ∨ step = lastStep := by
  unfold checkStep at h
  by_cases hstep : step = firstStep ∨ step = lastStep
  · exact hstep
  · rw [if_neg hstep] at h
    exact absurd (congrArg Prod.fst h) (by simp [fail])

namespace Opening

variable {o : Opening} {x : Competition} {c c' : Contest}

/-- An opening that passes its gates is of a visible puzzle. -/
theorem gate_eq_ok (h : o.gate c = (.ok x, c')) :
    c.store.unlocks o.competition o.player o.index = true ∧
      c.directory.competition? o.competition = some x := by
  rcases bind_eq_ok h with ⟨_, c₁, hvisible, hfind⟩
  have hagrees := (Contest.isRead_ensureVisible _ _ _).agrees_of_eq hvisible
  refine ⟨Contest.ensureVisible_eq_ok hvisible, ?_⟩
  rw [← hagrees.directory_eq]
  exact Contest.findCompetition_eq_ok hfind

end Opening

namespace Attempt

variable {a : Attempt} {x : Competition} {row : Try Nat} {c c' : Contest}

/-- What holds of a contest when an answer may go to the catalog. -/
structure Passes (a : Attempt) (c : Contest) (x : Competition) (row : Try Nat) : Prop where
  step : a.step = firstStep ∨ a.step = lastStep
  visible : c.store.unlocks a.competition a.player a.index = true
  competition : c.directory.competition? a.competition = some x
  found : c.store.find? a.key = some row
  unfinished : row.isFinished = false
  clear : Cooldown.gate c.plan row.attempts row.lastMove c.now = some .clear

theorem consult_eq_ok (h : a.consult c = (.ok (), c')) :
    ∃ row, c.store.find? a.key = some row ∧ row.isFinished = false ∧
      Cooldown.gate c.plan row.attempts row.lastMove c.now = some .clear := by
  rcases bind_eq_ok h with ⟨row, c₁, hdemand, hcheck⟩
  rcases Contest.demandTry_eq_ok hdemand with ⟨hfind, rfl⟩
  refine ⟨row, hfind, ?_⟩
  unfold checkTry at hcheck
  split at hcheck
  · exact absurd (congrArg Prod.fst hcheck) (by simp)
  · rename_i hopen
    refine ⟨by simpa using hopen, ?_⟩
    split at hcheck
    · exact absurd (congrArg Prod.fst hcheck) (by simp)
    · exact absurd (congrArg Prod.fst hcheck) (by simp)
    · assumption

/-- An answer that passes its gates has found an unfinished try without a cooldown. -/
theorem gate_eq_ok (h : a.gate c = (.ok x, c')) : ∃ row, a.Passes c x row := by
  rcases bind_eq_ok h with ⟨_, c₁, h₁, h⟩
  rcases bind_eq_ok h with ⟨_, c₂, h₂, h⟩
  rcases bind_eq_ok h with ⟨y, c₃, h₃, h⟩
  rcases bind_eq_ok h with ⟨_, c₄, h₄, h⟩
  rcases bind_eq_ok h with ⟨_, c₅, h₅, h⟩
  have hagrees₁ := (Contest.isRead_checkStep _).agrees_of_eq h₁
  have hagrees₂ := hagrees₁.trans ((Contest.isRead_ensureVisible _ _ _).agrees_of_eq h₂)
  have hagrees₄ := (hagrees₂.trans ((Contest.isRead_findCompetition _).agrees_of_eq h₃)).trans
    ((Contest.isRead_seekTry _).agrees_of_eq h₄)
  have hy : y = x := Except.ok.inj (congrArg Prod.fst h)
  have hvisible := Contest.ensureVisible_eq_ok h₂
  have hcompetition := Contest.findCompetition_eq_ok h₃
  rcases consult_eq_ok h₅ with ⟨row, hfound, hopen, hclear⟩
  rw [hagrees₁.store_eq] at hvisible
  rw [hagrees₂.directory_eq, hy] at hcompetition
  rw [hagrees₄.store_eq] at hfound
  rw [hagrees₄.plan_eq, hagrees₄.now_eq] at hclear
  exact ⟨row, checkStep_eq_ok h₁, hvisible, hcompetition, hfound, hopen, hclear⟩

end Attempt

end PuzzleContest
