import PuzzleContest.Proofs.Change

/-!
# First and second steps

Main results:

- `Store.Cascaded`: there are tries of two steps only, and a second step is there exactly when the
  first one is finished, with the level of the first one and the end of it as its start.
- `Store.Cascaded.change`: every change keeps a store cascaded.
-/

namespace PuzzleContest.Store

variable {s s' : Store} {key : Try.Key} {deal : Deal} {tidings : List Tiding}

/-- There is a try of a second step exactly when the first step is finished, and it goes on where the
first step ended. -/
structure Cascaded (s : Store) : Prop where
  steps : ∀ t ∈ s.tries, t.key.step = firstStep ∨ t.key.step = lastStep
  opened : ∀ key first stop, key.step = firstStep → s.find? key = some first →
    first.finish = some stop →
      ∃ second, s.find? key.next = some second ∧ second.start = stop ∧ second.level = first.level
  awaited : ∀ key second, key.step = firstStep → s.find? key.next = some second →
    ∃ first, s.find? key = some first ∧ first.isFinished = true

theorem cascaded_empty : Cascaded {} where
  steps := by simp
  opened := by
    intro key first stop _ h
    exact absurd h (by simp [find?])
  awaited := by
    intro key second _ h
    exact absurd h (by simp [find?])

/-- While a first step is unfinished, there is no second one. -/
theorem Cascaded.next_eq_none (hc : s.Cascaded) (hstep : key.step = firstStep)
    (hopen : ∀ first, s.find? key = some first → first.isFinished = false) :
    s.find? key.next = none := by
  cases hnext : s.find? key.next with
  | none => rfl
  | some second =>
    obtain ⟨first, hfirst, hfinished⟩ := hc.awaited key second hstep hnext
    rw [hopen first hfirst] at hfinished
    exact absurd hfinished (by simp)

/-! ## Changes -/

theorem Cascaded.opened_change {level : String} {start : Moment} {t : Try Nat} (hc : s.Cascaded)
    (hstep : key.step = firstStep) (hadd : s.add? key level start = some (t, s')) :
    s'.Cascaded := by
  obtain ⟨hnone, ht, hs'⟩ := add?_eq_some_iff.1 hadd
  have hfind := find?_add hadd
  refine ⟨?_, ?_, ?_⟩
  · intro u hu
    rw [hs'] at hu
    rcases List.mem_append.1 hu with hu | hu
    · exact hc.steps u hu
    · rw [List.mem_singleton.1 hu, ht]
      exact .inl hstep
  · intro k first stop hk hfirst hstop
    rw [hfind] at hfirst
    rw [hfind, if_neg (Try.Key.next_ne hstep)]
    by_cases hkey : k = key
    · rw [if_pos hkey, Option.some.injEq] at hfirst
      rw [← hfirst, ht] at hstop
      exact absurd hstop (by simp [fresh])
    · rw [if_neg hkey] at hfirst
      exact hc.opened k first stop hk hfirst hstop
  · intro k second hk hsecond
    rw [hfind, if_neg (Try.Key.next_ne hstep)] at hsecond
    obtain ⟨first, hfirst, hfinished⟩ := hc.awaited k second hk hsecond
    have hkey : k ≠ key := by
      intro h
      rw [h, hnone] at hfirst
      exact absurd hfirst (by simp)
    exact ⟨first, by rw [hfind, if_neg hkey, hfirst], hfinished⟩

/-- An answer keeps the tries to the two steps. -/
theorem Cascaded.steps_replace {row t : Try Nat} {now : Moment} {answer : String} {correct : Bool}
    (hs : s.Sound) (hc : s.Cascaded) (hrow : s.find? key = some row)
    (hanswer : row.answered? now answer correct = some t) :
    ∀ u ∈ (s.replace t).tries, u.key.step = firstStep ∨ u.key.step = lastStep := by
  have ht := Try.answered_of_eq_some hanswer
  have hkey : t.key = key := ht.key_eq.trans (key_of_find? hrow)
  rw [← hkey] at hrow
  intro u hu
  obtain ⟨v, hv, rfl⟩ := List.mem_map.1 hu
  rw [hs.key_replace hrow ht.id_eq hv]
  exact hc.steps v hv

theorem Cascaded.counted_change {row t : Try Nat} {now : Moment} {answer : String} {correct : Bool}
    (hs : s.Sound) (hc : s.Cascaded) (hrow : s.find? key = some row)
    (hopen : row.isFinished = false) (hanswer : row.answered? now answer correct = some t)
    (hlast : ¬(correct = true ∧ key.step = firstStep)) : (s.replace t).Cascaded := by
  have ht := Try.answered_of_eq_some hanswer
  have hfind := (find?_replace_answered hs hrow hanswer).2
  refine ⟨hc.steps_replace hs hrow hanswer, ?_, ?_⟩
  · intro k first stop hk hfirst hstop
    rw [hfind] at hfirst
    by_cases hkk : k = key
    · rw [if_pos hkk, Option.some.injEq] at hfirst
      have hwrong : correct = false := by
        rw [← hkk] at hlast
        simpa [hk] using hlast
      have hnone : t.isFinished = false := (ht.isFinished_eq hopen).trans hwrong
      rw [← hfirst] at hstop
      simp [Try.isFinished, hstop] at hnone
    · rw [if_neg hkk] at hfirst
      obtain ⟨second, hsecond, hstart, hlevel⟩ := hc.opened k first stop hk hfirst hstop
      -- Where the second step itself is answered, it keeps its start and its level.
      by_cases hnext : k.next = key
      · rw [hnext, hrow, Option.some.injEq] at hsecond
        refine ⟨t, by rw [hfind, if_pos hnext], ?_, ?_⟩
        · rw [ht.start_eq, hsecond, hstart]
        · rw [ht.level_eq, hsecond, hlevel]
      · exact ⟨second, by rw [hfind, if_neg hnext, hsecond], hstart, hlevel⟩
  · intro k second hk hsecond
    have hold : ∃ u, s.find? k.next = some u := by
      rw [hfind] at hsecond
      by_cases hnext : k.next = key
      · exact ⟨row, by rw [hnext, hrow]⟩
      · rw [if_neg hnext] at hsecond
        exact ⟨second, hsecond⟩
    obtain ⟨u, hu⟩ := hold
    obtain ⟨first, hfirst, hfinished⟩ := hc.awaited k u hk hu
    have hkk : k ≠ key := by
      intro h
      rw [h, hrow, Option.some.injEq] at hfirst
      rw [hfirst, hfinished] at hopen
      exact absurd hopen (by simp)
    exact ⟨first, by rw [hfind, if_neg hkk, hfirst], hfinished⟩

theorem Cascaded.solved_change {row t next : Try Nat} {now : Moment} {answer : String}
    (hs : s.Sound) (hc : s.Cascaded) (hstep : key.step = firstStep)
    (hrow : s.find? key = some row) (hanswer : row.answered? now answer true = some t)
    (hadd : (s.replace t).add? key.next t.level now = some (next, s')) : s'.Cascaded := by
  have ht := Try.answered_of_eq_some hanswer
  obtain ⟨-, hnext, hs'⟩ := add?_eq_some_iff.1 hadd
  have hfind : ∀ k, s'.find? k =
      if k = key.next then some next else if k = key then some t else s.find? k := by
    intro k
    rw [find?_add hadd, (find?_replace_answered hs hrow hanswer).2]
  refine ⟨?_, ?_, ?_⟩
  · intro u hu
    rw [hs'] at hu
    rcases List.mem_append.1 hu with hu | hu
    · exact hc.steps_replace hs hrow hanswer u hu
    · rw [List.mem_singleton.1 hu, hnext]
      exact .inr rfl
  · intro k first stop hk hfirst hstop
    have hne : k ≠ key.next := (Try.Key.next_ne hk).symm
    rw [hfind, if_neg hne] at hfirst
    by_cases hkk : k = key
    · rw [if_pos hkk, Option.some.injEq] at hfirst
      rw [← hfirst, ht.finish_eq, if_pos rfl, Option.some.injEq] at hstop
      refine ⟨next, by rw [hfind, hkk, if_pos rfl], ?_, ?_⟩
      · rw [hnext, ← hstop]
        rfl
      · rw [hnext, ← hfirst]
        rfl
    · rw [if_neg hkk] at hfirst
      obtain ⟨second, hsecond, hstart, hlevel⟩ := hc.opened k first stop hk hfirst hstop
      have hnn : k.next ≠ key.next := fun h => hkk (Try.Key.next_inj hk hstep h)
      refine ⟨second, ?_, hstart, hlevel⟩
      rw [hfind, if_neg hnn, if_neg (Try.Key.next_ne hstep), hsecond]
  · intro k second hk hsecond
    have hne : k ≠ key.next := (Try.Key.next_ne hk).symm
    by_cases hkk : k = key
    · refine ⟨t, by rw [hfind, if_neg hne, if_pos hkk], ?_⟩
      simp [Try.isFinished, ht.finish_eq]
    · have hnn : k.next ≠ key.next := fun h => hkk (Try.Key.next_inj hk hstep h)
      rw [hfind, if_neg hnn, if_neg (Try.Key.next_ne hstep)] at hsecond
      obtain ⟨first, hfirst, hfinished⟩ := hc.awaited k second hk hsecond
      exact ⟨first, by rw [hfind, if_neg hne, if_neg hkk, hfirst], hfinished⟩

/-- Every change keeps a store cascaded. -/
theorem Cascaded.change (hs : s.Sound) (hc : s.Cascaded) (h : s.Change key deal s' tidings) :
    s'.Cascaded := by
  cases h with
  | opened hstep hindex hadd => exact hc.opened_change hstep hadd
  | counted hrow hopen hanswer hlast => exact hc.counted_change hs hrow hopen hanswer hlast
  | solved hstep hrow hopen hanswer hadd => exact hc.solved_change hs hstep hrow hanswer hadd

end PuzzleContest.Store
