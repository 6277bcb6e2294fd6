import PuzzleContest.Proofs.Gate
import PuzzleContest.Proofs.Season

/-!
# Progress without gaps

A puzzle is visible when it is the first one or the one before it is solved.  The gate looks back by
one index only and takes any puzzle and step there, but since it stands before every puzzle that is
opened, a player who has come to an index has solved all earlier ones.

Main results:

- `Store.Gapless`, `Store.progress`: what players have solved has no gaps, and how far it goes.
- `Store.Gapless.change`: a change on a visible key leaves no gaps.
- `Store.Gapless.unlocks_iff`: exactly the indexes up to the progress are visible.
- `Contest.noGaps_season`: this holds after every season of gated calls, and no progress is lost.
-/

namespace PuzzleContest

namespace Store

variable {s s' : Store} {key : Try.Key} {deal : Deal} {tidings : List Tiding}
  {competition player : String} {i j m : Int}

/-- A player has a finished try at an index of a competition. -/
def Solved (s : Store) (competition player : String) (index : Int) : Prop :=
  ∃ t ∈ s.tries, t.key.competition = competition ∧ t.key.player = player ∧ t.key.index = index ∧
    t.isFinished = true

/-- Tries have no negative index, and a player with a try at some index has solved all earlier ones. -/
def Gapless (s : Store) : Prop :=
  ∀ t ∈ s.tries, 0 ≤ t.key.index ∧
    ∀ j, 0 ≤ j → j < t.key.index → s.Solved t.key.competition t.key.player j

theorem unlocks_eq_true_iff :
    s.unlocks competition player i = true ↔ i = 0 ∨ s.Solved competition player (i - 1) := by
  simp [unlocks, Solved, and_assoc]

theorem gapless_empty : Gapless {} := fun t ht => absurd ht (by simp)

/-! ## Changes -/

/-- What was solved stays solved. -/
theorem Solved.change (hs : s.Sound) (h : s.Change key deal s' tidings)
    (hsolved : s.Solved competition player i) : s'.Solved competition player i := by
  rcases hsolved with ⟨t, ht, hcompetition, hplayer, hindex, hfinished⟩
  have hfind := (find?_eq_some_iff hs).2 ⟨ht, rfl⟩
  refine ⟨t, ?_, hcompetition, hplayer, hindex, hfinished⟩
  cases h.fate hs t.key with
  | untouched hsame htold hdeal => exact mem_of_find? (hsame.trans hfind)
  | made hnone hfresh hfind' htold hdeal =>
    rw [hnone] at hfind
    exact absurd hfind (by simp)
  | answered hkey hdeal hrow hopen hanswer hfind' htold =>
    rw [hfind, Option.some.injEq] at hrow
    rw [hrow, hopen] at hfinished
    exact absurd hfinished (by simp)

/-- An answer comes to no new index. -/
theorem Change.exists_of_answer {now : Moment} {answer : String} {correct : Bool} (hs : s.Sound)
    (h : s.Change key (.answer now answer correct) s' tidings) {t : Try Nat} (ht : t ∈ s'.tries) :
    ∃ u ∈ s.tries, t.key.competition = u.key.competition ∧ t.key.player = u.key.player ∧
      t.key.index = u.key.index := by
  rcases h.answered_tries hs with ⟨row, answered, hrow, hopen, hanswer, htries, -⟩
  have hmem := mem_of_find? hrow
  have hkey := (Try.answered_of_eq_some hanswer).key_eq
  rw [htries] at ht
  rcases List.mem_append.1 ht with hold | hadded
  · rcases List.mem_map.1 hold with ⟨u, hu, rfl⟩
    by_cases hur : u = row
    · rw [if_pos hur, hkey]
      exact ⟨row, hmem, rfl, rfl, rfl⟩
    · rw [if_neg hur]
      exact ⟨u, hu, rfl, rfl, rfl⟩
  · by_cases hnext : correct = true ∧ key.step = firstStep
    · rw [if_pos hnext, List.mem_singleton] at hadded
      rw [hadded, ← key_of_find? hrow]
      exact ⟨row, hmem, rfl, rfl, rfl⟩
    · rw [if_neg hnext] at hadded
      exact absurd hadded List.not_mem_nil

/-- A change leaves no gaps, if it opens visible puzzles only. -/
theorem Gapless.change (hs : s.Sound) (hgapless : s.Gapless) (h : s.Change key deal s' tidings)
    (hvisible : deal.isAnswer = false → s.unlocks key.competition key.player key.index = true) :
    s'.Gapless := by
  have hkept : ∀ t ∈ s.tries, 0 ≤ t.key.index ∧
      ∀ j, 0 ≤ j → j < t.key.index → s'.Solved t.key.competition t.key.player j := by
    intro t ht
    exact ⟨(hgapless t ht).1, fun j hj hlt => ((hgapless t ht).2 j hj hlt).change hs h⟩
  have hchange := h
  cases deal with
  | answer now answer correct =>
    intro t ht
    rcases h.exists_of_answer hs ht with ⟨u, hu, hcompetition, hplayer, hindex⟩
    rw [hcompetition, hplayer, hindex]
    exact hkept u hu
  | opening level start =>
    cases h with
    | opened hstep hindex hadd =>
      rcases add?_eq_some_iff.1 hadd with ⟨-, hfresh, hs'⟩
      intro t ht
      rw [hs'] at ht
      rcases List.mem_append.1 ht with hold | hnew
      · exact hkept t hold
      · rw [List.mem_singleton.1 hnew, hfresh]
        change 0 ≤ key.index ∧ ∀ j, 0 ≤ j → j < key.index → s'.Solved key.competition key.player j
        rcases unlocks_eq_true_iff.1 (hvisible rfl) with hfirst | hbefore
        · rw [hfirst]
          refine ⟨Int.le_refl 0, fun j hj hlt => ?_⟩
          omega
        · -- The try at the index before has solved tries at all indexes before itself.
          have hbefore' := hbefore.change hs hchange
          rcases hbefore with ⟨u, hu, hcompetition, hplayer, hindex, -⟩
          have hu' := hkept u hu
          rw [hcompetition, hplayer, hindex] at hu'
          refine ⟨by omega, fun j hj hlt => ?_⟩
          by_cases hlast : j = key.index - 1
          · rw [hlast]
            exact hbefore'
          · exact hu'.2 j hj (by omega)

/-! ## How far a player has come -/

/-- The indexes of a competition at which a player has finished tries. -/
def solvedIndexes (s : Store) (competition player : String) : List Int :=
  (s.tries.filter fun t => t.key.competition = competition ∧ t.key.player = player ∧
    t.isFinished = true).map (·.key.index)

/-- How far a player has come in a competition: one index further than the greatest solved one. -/
def progress (s : Store) (competition player : String) : Int :=
  match (s.solvedIndexes competition player).max? with
  | none => 0
  | some greatest => 1 + greatest

theorem mem_solvedIndexes :
    i ∈ s.solvedIndexes competition player ↔ s.Solved competition player i := by
  simp only [solvedIndexes, Solved, List.mem_map, List.mem_filter, decide_eq_true_eq]
  constructor
  · rintro ⟨t, ⟨ht, hcompetition, hplayer, hfinished⟩, hindex⟩
    exact ⟨t, ht, hcompetition, hplayer, hindex, hfinished⟩
  · rintro ⟨t, ht, hcompetition, hplayer, hindex, hfinished⟩
    exact ⟨t, ⟨ht, hcompetition, hplayer, hfinished⟩, hindex⟩

theorem progress_cases (s : Store) (competition player : String) :
    (s.progress competition player = 0 ∧ ∀ i, ¬s.Solved competition player i) ∨
      ∃ i, s.progress competition player = 1 + i ∧ s.Solved competition player i ∧
        ∀ j, s.Solved competition player j → j ≤ i := by
  unfold progress
  simp only [← mem_solvedIndexes]
  cases hmax : (s.solvedIndexes competition player).max? with
  | none =>
    rw [List.max?_eq_none_iff] at hmax
    exact .inl ⟨rfl, by simp [hmax]⟩
  | some i => exact .inr ⟨i, rfl, List.max?_eq_some_iff.1 hmax⟩

/-- Where there are no gaps, exactly the indexes before the progress are solved. -/
theorem Gapless.solved_iff (h : s.Gapless) :
    s.Solved competition player i ↔ 0 ≤ i ∧ i < s.progress competition player := by
  rcases progress_cases s competition player with ⟨hzero, hnone⟩ | ⟨last, hlast, hsolved, hle⟩
  · have hnot := hnone i
    constructor
    · intro hi
      exact absurd hi hnot
    · omega
  · constructor
    · intro hi
      have hbound := hle i hi
      rcases hi with ⟨t, ht, -, -, rfl, -⟩
      exact ⟨(h t ht).1, by omega⟩
    · rintro ⟨hnonneg, hlt⟩
      by_cases heq : i = last
      · rw [heq]
        exact hsolved
      · rcases hsolved with ⟨t, ht, rfl, rfl, rfl, -⟩
        exact (h t ht).2 i hnonneg (by omega)

theorem Gapless.progress_nonneg (h : s.Gapless) (competition player : String) :
    0 ≤ s.progress competition player := by
  rcases progress_cases s competition player with ⟨hzero, -⟩ | ⟨last, hlast, hsolved, -⟩
  · omega
  · have hindex := (h.solved_iff.1 hsolved).1
    omega

/-- Where there are no gaps, exactly the indexes up to the progress are visible. -/
theorem Gapless.unlocks_iff (h : s.Gapless) :
    s.unlocks competition player i = true ↔ 0 ≤ i ∧ i ≤ s.progress competition player := by
  have hnonneg := h.progress_nonneg competition player
  rw [unlocks_eq_true_iff, h.solved_iff]
  omega

/-- More solved indexes are more progress. -/
theorem Gapless.progress_le (h : s'.Gapless)
    (hsolved : ∀ i, s.Solved competition player i → s'.Solved competition player i) :
    s.progress competition player ≤ s'.progress competition player := by
  rcases progress_cases s competition player with ⟨hzero, -⟩ | ⟨last, hlast, hlastSolved, -⟩
  · rw [hzero]
    exact h.progress_nonneg competition player
  · have hlt := (h.solved_iff.1 (hsolved last hlastSolved)).2
    omega

end Store

/-! ## Seasons of gated calls -/

namespace Opening

variable {me : Holder} {o : Opening} {c : Contest}

/-- Nothing comes of an opening whose puzzle is not visible. -/
theorem agrees_of_not_unlocks {middle : Action (Try Nat)}
    (hhidden : ¬c.store.unlocks o.competition o.player o.index = true) :
    c.Agrees ((do let x ← o.gate; let _ ← middle; o.fetch x) c).2 := by
  have hgate := o.isRead_gate.agrees c
  rw [Action.bind_apply]
  cases hx : o.gate c with
  | mk x c₁ =>
    rw [hx] at hgate
    cases x with
    | error e => exact hgate
    | ok x => exact absurd (gate_eq_ok hx).1 hhidden

end Opening

namespace Contest

variable {c c' : Contest}

/-- Puzzles are opened and answered through their gates only. -/
def Event.IsGated : Event → Prop
  | .call _ (.trigger _) | .call _ (.submit _) => False
  | _ => True

/-- A gated event makes no try on a key that is not visible. -/
theorem after_gated (hs : c.store.Sound) (hc : c.store.Cascaded) {e : Event} (he : e.IsGated) :
    (c.after e).store = c.store ∨ ∃ key deal tidings,
      c.store.Change key deal (c.after e).store tidings ∧
        (deal.isAnswer = false → c.store.unlocks key.competition key.player key.index = true) := by
  have hopening : ∀ {o : Opening} {middle : Action (Try Nat)},
      (∀ c : Contest, c.store.Sound → c.store.Cascaded → c.Becomes none (middle c).2 ∨
        c.Becomes (some (o.key, .opening o.level c.now)) (middle c).2) →
      let c' := ((do let x ← o.gate; let _ ← middle; o.fetch x) c).2
      c'.store = c.store ∨ ∃ key deal tidings, c.store.Change key deal c'.store tidings ∧
        (deal.isAnswer = false → c.store.unlocks key.competition key.player key.index = true) := by
    intro o middle hmiddle
    by_cases hvisible : c.store.unlocks o.competition o.player o.index = true
    · rcases Opening.becomes_of_middle hmiddle hs hc with h | h
      · cases h with
        | same hagrees => exact .inl hagrees.store_eq
      · cases h with
        | changed _ _ _ _ _ hchange => exact .inr ⟨_, _, _, hchange, fun _ => hvisible⟩
    · exact .inl (Opening.agrees_of_not_unlocks hvisible).store_eq
  cases e with
  | around x => exact .inl rfl
  | unstorable me o => exact hopening fun c => o.runUnstorable_becomes me
  | call me call =>
    cases call with
    | trigger o => exact absurd he id
    | submit s => exact absurd he id
    | visit o => exact hopening fun c => o.run_becomes me
    | answer a =>
      rcases a.play_becomes me hs hc with ⟨e, -, h⟩ | ⟨v, -, h⟩
      · cases h with
        | same hagrees => exact .inl hagrees.store_eq
      · cases h with
        | changed _ _ _ _ _ hchange =>
          exact .inr ⟨_, _, _, hchange, fun h => absurd h (by simp [Deal.isAnswer])⟩
    | ask q => exact .inl (q.isRead_run.agrees c).store_eq

/-- What holds of a contest in which progress has no gaps. -/
structure Advancing (c : Contest) : Prop where
  store : c.store.Sound
  cascaded : c.store.Cascaded
  gapless : c.store.Gapless

/-- A gated event leaves no gaps and loses nothing that was solved. -/
theorem Advancing.after (h : c.Advancing) {e : Event} (he : e.IsGated) :
    (c.after e).Advancing ∧ ∀ competition player i,
      c.store.Solved competition player i → (c.after e).store.Solved competition player i := by
  rcases sound_after h.store h.cascaded e with ⟨hs', hc'⟩
  rcases after_gated h.store h.cascaded he with hsame | ⟨key, deal, tidings, hchange, hvisible⟩
  · refine ⟨⟨hs', hc', ?_⟩, ?_⟩
    · rw [hsame]
      exact h.gapless
    · intro competition player i hsolved
      rw [hsame]
      exact hsolved
  · exact ⟨⟨hs', hc', h.gapless.change h.store hchange hvisible⟩,
      fun competition player i hsolved => hsolved.change h.store hchange⟩

theorem Advancing.season (h : c.Advancing) {events : List Event} (he : ∀ e ∈ events, e.IsGated) :
    (c.season events).Advancing ∧ ∀ competition player i,
      c.store.Solved competition player i →
        (c.season events).store.Solved competition player i := by
  induction events generalizing c with
  | nil => exact ⟨h, fun competition player i hsolved => hsolved⟩
  | cons e rest ih =>
    have hafter := h.after (he e List.mem_cons_self)
    have hrest := ih hafter.1 fun e' he' => he e' (List.mem_cons_of_mem e he')
    refine ⟨hrest.1, ?_⟩
    intro competition player i hsolved
    exact hrest.2 competition player i (hafter.2 competition player i hsolved)

/-- The same contest with a storage in order. -/
def inOrderNow (c : Contest) : Contest := { c with schedule := {} }

/-- What is promised of the progress of players, from an earlier time to a later one. -/
structure NoGaps (earlier later : Contest) : Prop where
  index_nonneg : ∀ t ∈ later.store.tries, 0 ≤ t.key.index
  /-- Whoever has a try at some index has finished tries at all earlier ones. -/
  solved_before : ∀ t ∈ later.store.tries, ∀ j, 0 ≤ j → j < t.key.index →
    ∃ u ∈ later.store.tries, u.key.competition = t.key.competition ∧ u.key.player = t.key.player ∧
      u.key.index = j ∧ u.finish ≠ none
  /-- The progress is one more than the greatest index of a finished try, if there is one. -/
  progress_eq : ∀ x p, (later.store.progress x p = 0 ∧ ∀ i, ¬later.store.Solved x p i) ∨
    ∃ i, later.store.progress x p = 1 + i ∧ later.store.Solved x p i ∧
      ∀ j, later.store.Solved x p j → j ≤ i
  /-- Exactly the puzzles up to the progress are visible. -/
  visible_iff : ∀ x p i, (mayView x p i later.inOrderNow).1 = .ok true ↔
    0 ≤ i ∧ i ≤ later.store.progress x p
  /-- No progress is lost. -/
  never_less : ∀ x p, earlier.store.progress x p ≤ later.store.progress x p

/-- While the storage is in order, exactly the puzzles up to the progress are visible. -/
theorem Advancing.visible_iff (h : c.Advancing) (x p : String) (i : Int) :
    (mayView x p i c.inOrderNow).1 = .ok true ↔ 0 ≤ i ∧ i ≤ c.store.progress x p := by
  have hunlocks : c.store.unlocks x p i = true ↔ 0 ≤ i ∧ i ≤ c.store.progress x p :=
    h.gapless.unlocks_iff
  rw [mayView_eq_true_iff rfl, ← hunlocks]
  constructor
  · rintro (hfirst | ⟨-, hvisible⟩)
    · exact Store.unlocks_eq_true_iff.2 (.inl hfirst)
    · exact hvisible
  · intro hvisible
    rcases Store.unlocks_eq_true_iff.1 hvisible with hfirst | hbefore
    · exact .inl hfirst
    · refine .inr ⟨?_, hvisible⟩
      rcases hbefore with ⟨t, ht, -, -, hindex, -⟩
      rw [← hindex]
      exact h.store.storable t ht

/-- In every season of gated calls that starts without tries, the progress of all players has no gaps,
at each time and from each earlier time on. -/
theorem noGaps_season (c : Contest) (before rest : List Event)
    (hgated : ∀ e ∈ before ++ rest, e.IsGated) :
    NoGaps (c.bare.season before) (c.bare.season (before ++ rest)) := by
  have hbare : c.bare.Advancing := ⟨Store.sound_empty, Store.cascaded_empty, Store.gapless_empty⟩
  have hbefore := (hbare.season fun e he => hgated e (List.mem_append_left rest he)).1
  have hafter := hbefore.season fun e he => hgated e (List.mem_append_right before he)
  rw [← season_append] at hafter
  have hlater := hafter.1
  refine ⟨fun t ht => (hlater.gapless t ht).1, ?_, ?_, hlater.visible_iff, ?_⟩
  · intro t ht j hj hlt
    rcases (hlater.gapless t ht).2 j hj hlt with ⟨u, hu, hcompetition, hplayer, hindex, hfinished⟩
    refine ⟨u, hu, hcompetition, hplayer, hindex, ?_⟩
    intro hnone
    simp [Try.isFinished, hnone] at hfinished
  · exact fun x p => Store.progress_cases _ x p
  · exact fun x p => hlater.gapless.progress_le fun i => hafter.2 x p i

/-- The catalog finds an answer to the first puzzle correct, and then the second puzzle is opened. -/
theorem noGaps_season_sample :
    let c : Contest :=
      { sample with catalog := fun _ => .answered 200 "\x7b\"matches\": true\x7d" }
    let before : List Event := [.call (.caller 0) (.visit sampleOpening)]
    let rest : List Event := [
      .call (.caller 0) (.answer ⟨"cup", "player", "knots", 0, firstStep, "42"⟩),
      .call (.caller 0) (.visit { sampleOpening with puzzle := "ropes", index := 1 })]
    (∀ e ∈ before ++ rest, e.IsGated) ∧
      NoGaps (c.bare.season before) (c.bare.season (before ++ rest)) ∧
      (c.bare.season before).store.progress "cup" "player" = 0 ∧
      (c.bare.season (before ++ rest)).store.progress "cup" "player" = 1 ∧
      (c.bare.season (before ++ rest)).store.tries.map (·.key.index) = [0, 0, 1] := by
  intro c before rest
  have hgated : ∀ e ∈ before ++ rest, e.IsGated := by simp [before, rest, Event.IsGated]
  exact ⟨hgated, noGaps_season c before rest hgated, by decide +kernel, by decide +kernel,
    by decide +kernel⟩

end Contest

end PuzzleContest
