import Mathlib.Data.Prod.Lex
import PuzzleContest.Contest.Query
import PuzzleContest.Proofs.Consistency

/-!
# The three listings

Tries can be listed for a competition, for a player in it, and for a player's puzzle.  Each listing
shows all tries of its kind, each of them once, in its own order; those of all players together show what
the one of the competition does.  The tries on a puzzle are at most two, the first step and, once that is
finished, the second one after it, even where both start at the same instant.

Main definitions:

- `Try.competitionRank`, `Try.playerRank`, `Try.puzzleRank`: by what the listings are ordered.
- `Store.Lists`: a list shows all tries of some kind in some order.
- `Store.Steps`: what the tries on a puzzle may be.
- `Contest.Listings`: what the listings of a contest show, and what comes of asking for them.

Main results:

- `Store.Sound.lists_mergeSort`: tries that are picked and sorted are listed.
- `Store.Sound.steps_ofPuzzle`: the shape of the tries on a puzzle.
- `Store.flatMap_perm_of_lists`: the listings of all players are together that of the competition.
- `Contest.enrolled_season`, `Crowd.enrolled_run`: tries are those of players in the directory.
- `Contest.listings_run`: the listings after any calls in universal time.
-/

namespace PuzzleContest

/-! ## Orders -/

namespace Try

/-- By start, index and step. -/
def competitionRank (t : Try Nat) : Int ×ₗ Int ×ₗ Int :=
  toLex (t.start.instant, toLex (t.key.index, t.key.step))

/-- By index, step and start. -/
def playerRank (t : Try Nat) : Int ×ₗ Int ×ₗ Int :=
  toLex (t.key.index, toLex (t.key.step, t.start.instant))

/-- By start and step. -/
def puzzleRank (t : Try Nat) : Int ×ₗ Int := toLex (t.start.instant, t.key.step)

theorem IsUtc.wall_eq {t : Try Nat} (h : t.IsUtc) : t.start.wall = t.start.instant := by
  have hoffset : t.start.offset = some 0 := h.start
  simp [Moment.instant, hoffset]

end Try

namespace Store

instance : Std.TransCmp puzzleOrder :=
  inferInstanceAs <| Std.TransCmp <|
    compareLex (compareOn fun t : Try Nat => t.start.wall) (compareOn fun t : Try Nat => t.key.step)

instance : Std.TransCmp competitionOrder :=
  inferInstanceAs <| Std.TransCmp <|
    compareLex (compareOn fun t : Try Nat => t.start.wall) <|
    compareLex (compareOn fun t : Try Nat => t.key.index) <|
    compareLex (compareOn fun t : Try Nat => t.key.step) <|
    compareLex (compareOn fun t : Try Nat => t.key.player) <|
      compareOn fun t : Try Nat => t.key.puzzle

instance : Std.TransCmp playerOrder :=
  inferInstanceAs <| Std.TransCmp <|
    compareLex (compareOn fun t : Try Nat => t.key.index) <|
    compareLex (compareOn fun t : Try Nat => t.key.step) <|
    compareLex (compareOn fun t : Try Nat => t.start.wall) <|
      compareOn fun t : Try Nat => t.key.puzzle

theorem isLE_compare_then {a b : Int} {o : Ordering} :
    ((compare a b).then o).isLE = true ↔ a < b ∨ a = b ∧ o.isLE = true := by
  rcases lt_trichotomy a b with h | h | h
  · simp [compare_lt_iff_lt.2 h, h]
  · simp [h]
  · simp [compare_gt_iff_gt.2 h, h.ne', h.not_gt]

variable {a b : Try Nat}

theorem competitionRank_le (ha : a.IsUtc) (hb : b.IsUtc) (h : (competitionOrder a b).isLE = true) :
    a.competitionRank ≤ b.competitionRank := by
  simp only [competitionOrder, isLE_compare_then, ha.wall_eq, hb.wall_eq] at h
  simp only [Try.competitionRank, Prod.Lex.toLex_le_toLex]
  omega

theorem playerRank_le (ha : a.IsUtc) (hb : b.IsUtc) (h : (playerOrder a b).isLE = true) :
    a.playerRank ≤ b.playerRank := by
  simp only [playerOrder, isLE_compare_then, ha.wall_eq, hb.wall_eq] at h
  simp only [Try.playerRank, Prod.Lex.toLex_le_toLex]
  omega

theorem puzzleRank_le (ha : a.IsUtc) (hb : b.IsUtc) (h : (puzzleOrder a b).isLE = true) :
    a.puzzleRank ≤ b.puzzleRank := by
  simp only [puzzleOrder, isLE_compare_then, Std.isLE_compare, ha.wall_eq, hb.wall_eq] at h
  simpa only [Try.puzzleRank, Prod.Lex.toLex_le_toLex] using h

/-! ## Lists of all tries of a kind -/

variable {s : Store} {t : Try Nat}

/-- A list shows every try of some kind once and nothing else, in the order of some rank. -/
structure Lists {ρ : Type} [LE ρ] (s : Store) (kind : Try Nat → Prop) [DecidablePred kind]
    (rank : Try Nat → ρ) (listed : List (Try Nat)) : Prop where
  count_eq : ∀ t, listed.count t = if t ∈ s.tries ∧ kind t then 1 else 0
  ordered : listed.Pairwise fun a b => rank a ≤ rank b

theorem Sound.nodup (hs : s.Sound) : s.tries.Nodup := .of_map _ hs.keys_nodup

section Lists

variable {ρ : Type} [LE ρ] {kind : Try Nat → Prop} [DecidablePred kind] {rank : Try Nat → ρ}
  {listed : List (Try Nat)}

theorem Lists.mem_iff (h : s.Lists kind rank listed) : t ∈ listed ↔ t ∈ s.tries ∧ kind t := by
  rw [← List.count_pos_iff, h.count_eq]
  split <;> simp_all

theorem Lists.nodup (h : s.Lists kind rank listed) : listed.Nodup := by
  rw [List.nodup_iff_count_le_one]
  intro t
  rw [h.count_eq]
  split <;> omega

/-- The tries of some kind are listed when they are picked from a sound store and sorted. -/
theorem Sound.lists_mergeSort (hs : s.Sound) {order : Try Nat → Try Nat → Ordering}
    [Std.TransCmp order] (hrank : ∀ a ∈ s.tries, ∀ b ∈ s.tries, (order a b).isLE = true →
      rank a ≤ rank b) :
    s.Lists kind rank ((s.tries.filter fun t => kind t).mergeSort fun a b => (order a b).isLE) where
  count_eq t := by
    rw [(List.mergeSort_perm _ _).count_eq, (hs.nodup.filter _).count]
    simp
  ordered := by
    have htotal : ∀ a b : Try Nat, ((order a b).isLE || (order b a).isLE) = true := by
      intro a b
      rw [@Std.OrientedCmp.eq_swap _ order]
      cases order b a <;> rfl
    refine (List.pairwise_mergeSort (fun _ _ _ => Std.TransCmp.isLE_trans) htotal _).imp_of_mem ?_
    intro a b ha hb h
    exact hrank a (List.mem_filter.1 (List.mem_mergeSort.1 ha)).1 b
      (List.mem_filter.1 (List.mem_mergeSort.1 hb)).1 h

end Lists

/-! ## The tries on a puzzle -/

/-- What the tries of a player on a puzzle may be: none; the first step, which is not finished; or the
first step, which is finished, and the second one after it. -/
inductive Steps (first : Try.Key) : List (Try Nat) → Prop where
  | none : Steps first []
  | one {t : Try Nat} (hkey : t.key = first) (hopen : t.isFinished = false) : Steps first [t]
  | two {t u : Try Nat} (hkey : t.key = first) (hfinished : t.isFinished = true)
      (hnext : u.key = first.next) : Steps first [t, u]

variable {competition player puzzle : String} {index : Int}

/-- On a puzzle there are tries of the first step and of the next one only. -/
theorem Cascaded.key_cases (hc : s.Cascaded) (ht : t ∈ s.tries) (hkey : t.key.competition = competition ∧
    t.key.player = player ∧ t.key.puzzle = puzzle ∧ t.key.index = index) :
    t.key = ⟨competition, player, puzzle, index, firstStep⟩ ∨
      t.key = Try.Key.next ⟨competition, player, puzzle, index, firstStep⟩ := by
  rcases hkey with ⟨rfl, rfl, rfl, rfl⟩
  refine (hc.steps t ht).imp (fun hstep => ?_) fun hstep => ?_
  · rw [← hstep]
  · rw [Try.Key.next, ← hstep]

/-- A first step that is finished stands before the second one, which may have started at the very same
instant. -/
theorem Cascaded.puzzleRank_lt {now : Moment} {first : Try.Key} {one two : Try Nat} (hc : s.Cascaded)
    (hconsistent : ∀ t ∈ s.tries, t.Consistent) (htimely : ∀ t ∈ s.tries, t.Timely now)
    (hstep : first.step = firstStep) (hone : s.find? first = some one)
    (htwo : s.find? first.next = some two) (hfinished : one.isFinished = true) :
    one.puzzleRank < two.puzzleRank := by
  rcases Option.isSome_iff_exists.1 hfinished with ⟨stop, hstop⟩
  rcases hc.opened first one stop hstep hone hstop with ⟨second, hsecond, hstart, -⟩
  rw [htwo, Option.some.injEq] at hsecond
  subst hsecond
  have hmem := mem_of_find? hone
  have hmove := ((hconsistent one hmem).score_finished stop hstop).2.1
  have hle := (htimely one hmem).start_le_lastMove stop hmove
  have hlt : one.key.step < two.key.step := by
    rw [key_of_find? hone, key_of_find? htwo, hstep]
    exact (by decide : firstStep < lastStep)
  simp only [Try.puzzleRank, Prod.Lex.toLex_lt_toLex, hstart]
  omega

/-- Two elements in order are listed in this order. -/
theorem eq_pair_of_pairwise {α ρ : Type} [PartialOrder ρ] {rank : α → ρ} {listed : List α} {a b : α}
    (hperm : listed.Perm [a, b]) (hordered : listed.Pairwise fun x y => rank x ≤ rank y)
    (hlt : rank a < rank b) : listed = [a, b] := by
  refine hperm.eq_of_pairwise ?_ hordered (by simpa using hlt.le)
  intro x y hx hy hxy hyx
  have hx' := hperm.mem_iff.1 hx
  simp only [List.mem_cons, List.not_mem_nil, or_false] at hx' hy
  rcases hx' with rfl | rfl <;> rcases hy with rfl | rfl
  · rfl
  · exact absurd hlt hyx.not_gt
  · exact absurd hlt hxy.not_gt
  · rfl

/-- The tries on a puzzle are its steps as far as they have been reached. -/
theorem Sound.steps_ofPuzzle {now : Moment} (hs : s.Sound) (hc : s.Cascaded)
    (hconsistent : ∀ t ∈ s.tries, t.Consistent) (htimely : ∀ t ∈ s.tries, t.Timely now)
    {listed : List (Try Nat)} (hlists : s.Lists (fun t => t.key.competition = competition ∧
      t.key.player = player ∧ t.key.puzzle = puzzle ∧ t.key.index = index) Try.puzzleRank listed) :
    Steps ⟨competition, player, puzzle, index, firstStep⟩ listed := by
  generalize hfirst : Try.Key.mk competition player puzzle index firstStep = first
  have hstep : first.step = firstStep := by rw [← hfirst]
  have hmem : ∀ t, t ∈ listed ↔ s.find? first = some t ∨ s.find? first.next = some t := by
    intro t
    rw [hlists.mem_iff, find?_eq_some_iff hs, find?_eq_some_iff hs, ← and_or_left]
    refine and_congr_right fun ht => ⟨fun hkey => hfirst ▸ hc.key_cases ht hkey, ?_⟩
    rintro (hkey | hkey) <;> rw [hkey, ← hfirst] <;> exact ⟨rfl, rfl, rfl, rfl⟩
  have hperm : ∀ ts : List (Try Nat), ts.Nodup → (∀ t, t ∈ listed ↔ t ∈ ts) → listed.Perm ts :=
    fun ts hts => (List.perm_ext_iff_of_nodup hlists.nodup hts).2
  cases hone : s.find? first with
  | none =>
    have htwo : s.find? first.next = none :=
      hc.next_eq_none hstep fun one h => absurd (hone.symm.trans h) (by simp)
    have hnil : listed.Perm [] := hperm [] List.nodup_nil fun t => by simp [hmem, hone, htwo]
    rw [hnil.eq_nil]
    exact .none
  | some one =>
    have hkey := key_of_find? hone
    cases hfinished : one.isFinished with
    | false =>
      have htwo : s.find? first.next = none := by
        refine hc.next_eq_none hstep fun t h => ?_
        rw [hone, Option.some.injEq] at h
        rw [← h, hfinished]
      have hsingle : listed.Perm [one] :=
        hperm [one] (List.nodup_singleton one) fun t => by simp [hmem, hone, htwo, eq_comm]
      rw [List.perm_singleton.1 hsingle]
      exact .one hkey hfinished
    | true =>
      rcases Option.isSome_iff_exists.1 hfinished with ⟨stop, hstop⟩
      rcases hc.opened first one stop hstep hone hstop with ⟨two, htwo, -, -⟩
      have hlt := hc.puzzleRank_lt hconsistent htimely hstep hone htwo hfinished
      have hne : one ≠ two := fun h => hlt.ne (h ▸ rfl)
      have hpair : listed.Perm [one, two] :=
        hperm [one, two] (by simp [hne]) fun t => by simp [hmem, hone, htwo, eq_comm]
      rw [eq_pair_of_pairwise hpair hlists.ordered hlt]
      exact .two hkey hfinished (key_of_find? htwo)

/-! ## The tries of all players -/

/-- The tries of all players together are those of the competition. -/
theorem flatMap_perm_of_lists {ρ σ : Type} [LE ρ] [LE σ] {rank : Try Nat → ρ} {rank' : Try Nat → σ}
    {whole : List (Try Nat)} {part : String → List (Try Nat)}
    (hwhole : s.Lists (fun t => t.key.competition = competition) rank whole)
    (hpart : ∀ p, s.Lists (fun t => t.key.competition = competition ∧ t.key.player = p) rank' (part p))
    {players : List String} (hnodup : players.Nodup)
    (hplayers : ∀ t ∈ s.tries, t.key.player ∈ players) : (players.flatMap part).Perm whole := by
  have hflat : (players.flatMap part).Nodup := by
    refine List.nodup_flatMap.2 ⟨fun p _ => (hpart p).nodup, hnodup.imp fun {p q} hne => ?_⟩
    intro t htp htq
    have hp := ((hpart p).mem_iff.1 htp).2.2
    have hq := ((hpart q).mem_iff.1 htq).2.2
    exact hne (hp.symm.trans hq)
  refine (List.perm_ext_iff_of_nodup hflat hwhole.nodup).2 fun t => ?_
  simp only [List.mem_flatMap, (hpart _).mem_iff, hwhole.mem_iff]
  constructor
  · rintro ⟨p, -, ht, hcompetition, -⟩
    exact ⟨ht, hcompetition⟩
  · rintro ⟨ht, hcompetition⟩
    exact ⟨t.key.player, hplayers t ht, ht, hcompetition, rfl⟩

end Store

/-! ## Players of the directory -/

theorem Directory.player?_eq_some {d : Directory} {id : String} {p : Player}
    (h : d.player? id = some p) : p ∈ d.players ∧ p.id = id := by
  unfold player? at h
  exact ⟨List.mem_of_find?_eq_some h, by simpa using List.find?_some h⟩

namespace Contest

/-- The tries of a contest are those of players in its directory. -/
def Enrolled (c : Contest) : Prop := ∀ t ∈ c.store.tries, ∃ p, c.directory.player? t.key.player = some p

variable {c c' : Contest}

/-- A deal of a player in the directory leaves tries of such players only. -/
theorem Enrolled.change {key : Try.Key} {deal : Deal} {tidings : List Store.Tiding} {p : Player}
    (h : c.Enrolled) (hdirectory : c'.directory = c.directory)
    (hplayer : c.directory.player? key.player = some p)
    (hchange : c.store.Change key deal c'.store tidings) : c'.Enrolled := by
  intro t ht
  rw [hdirectory]
  rcases hchange.mem_or_key ht with hold | hkey | hkey
  · exact h t hold
  · exact ⟨p, hkey ▸ hplayer⟩
  · exact ⟨p, hkey ▸ hplayer⟩

theorem Becomes.enrolled {what : Option (Try.Key × Deal)} (h : c.Becomes what c') (hc : c.Enrolled) :
    c'.Enrolled := by
  cases h with
  | same hagrees =>
    intro t ht
    rw [hagrees.store_eq] at ht
    rw [hagrees.directory_eq]
    exact hc t ht
  | changed hdirectory _ _ _ hplayer hchange _ => exact hc.change hdirectory hplayer hchange

theorem enrolled_season (hs : c.store.Sound) (hcascaded : c.store.Cascaded) (hc : c.Enrolled)
    (events : List Event) : (c.season events).Enrolled := by
  induction events generalizing c with
  | nil => exact hc
  | cons e rest ih =>
    rcases sound_after hs hcascaded e with ⟨hs', hcascaded'⟩
    refine ih hs' hcascaded' ?_
    rcases after_cases hs hcascaded e with ⟨x, rfl⟩ | ⟨what, hbecomes, -⟩
    · exact hc
    · exact hbecomes.enrolled hc

end Contest

/-- A call that has read the clock has found its player before. -/
theorem Deed.Informed.exists_player {d : Deed} {directory : Directory} {s : Store} {m : Moment}
    (h : d.Informed directory s) (hm : d.moment? = some m) :
    ∃ p, directory.player? d.key.player = some p := by
  cases d with
  | opening o phase =>
    cases phase with
    | inserting p start => exact ⟨p, h⟩
    | _ => exact absurd hm (by simp [moment?, Opening.Phase.moment?])
  | submission sub phase =>
    cases phase with
    | peeking p t now => exact ⟨p, h.1⟩
    | committing p t next => exact ⟨p, h.1⟩
    | _ => exact absurd hm (by simp [moment?, Submission.Phase.moment?])

namespace Crowd

variable {w : Crowd}

theorem enrolled_step (hw : w.Sound) (h : w.contest.Enrolled) (move : Move) :
    (w.step move).contest.Enrolled := by
  cases move with
  | clock now => exact h
  | turn i =>
    cases hi : w.deeds[i]? with
    | none =>
      rw [step_turn_of_none hi]
      exact h
    | some d =>
      rw [step_turn_of_some hi]
      have hinformed := hw.informed i d hi
      have hstride := (Deed.stride_advance (.caller i) hw.store hw.cascaded hinformed).1
      have hdirectory := hstride.directory_eq
      rcases hstride.store_cases with hsame | ⟨deal, tidings, -, hm, hchange⟩
      · intro t ht
        rw [hsame] at ht
        rw [hdirectory]
        exact h t ht
      · rcases hinformed.exists_player hm with ⟨p, hp⟩
        exact h.change hdirectory hp hchange

theorem enrolled_run (hw : w.Sound) (h : w.contest.Enrolled) (moves : List Move) :
    (w.run moves).contest.Enrolled := by
  induction moves generalizing w with
  | nil => exact h
  | cons move rest ih => exact ih (hw.step move) (enrolled_step hw h move)

end Crowd

/-! ## Listings -/

namespace Contest

variable {c : Contest}

/-- What the listings of a contest show, and what comes of asking for them. -/
structure Listings (c : Contest) : Prop where
  /-- All tries of a competition, by start, index and step. -/
  competition : ∀ x, c.store.Lists (fun t => t.key.competition = x) Try.competitionRank
    (c.store.ofCompetition x)
  /-- All tries of a player in a competition, by index, step and start. -/
  player : ∀ x p, c.store.Lists (fun t => t.key.competition = x ∧ t.key.player = p) Try.playerRank
    (c.store.ofPlayer x p)
  /-- All tries of a player on a puzzle, by start and step. -/
  puzzle : ∀ x p puzzle index, c.store.Lists (fun t => t.key.competition = x ∧ t.key.player = p ∧
    t.key.puzzle = puzzle ∧ t.key.index = index) Try.puzzleRank (c.store.ofPuzzle x p puzzle index)
  /-- Whoever asks for a listing gets it, with the players of the tries, once there is a session. -/
  competitionTries_eq : ∀ x, (competitionTries x c).1 =
    (session c).1.map fun _ => (c.store.ofCompetition x).map c.snapshot
  playerTries_eq : ∀ x p, (playerTries x p c).1 =
    (session c).1.map fun _ => (c.store.ofPlayer x p).map c.snapshot
  /-- An index that cannot be stored is refused, and no try has it. -/
  puzzleTries_eq : ∀ x p puzzle index, (puzzleTries x p puzzle index c).1 =
    (session c).1.bind fun _ =>
      if Store.holds index then .ok (c.store.ofPuzzle x p puzzle index) else .error .integerTooWide
  storable : ∀ t ∈ c.store.tries, Store.holds t.key.index = true
  /-- The listings of all users are together that of the competition. -/
  together : ∀ x (users : List String), users.Nodup → (∀ p ∈ c.directory.players, p.id ∈ users) →
    (users.flatMap fun p => c.store.ofPlayer x p).Perm (c.store.ofCompetition x)
  /-- On a puzzle there is nothing, the open first step, or the finished one and then the second. -/
  steps : ∀ x p puzzle index,
    Store.Steps ⟨x, p, puzzle, index, firstStep⟩ (c.store.ofPuzzle x p puzzle index)

/-- A read in a session that opens finds the contest as it was before. -/
theorem session_bind_fst {α : Type} {x : Action α} {result : Except Failure α}
    (hx : ∀ schedule, (x { c with schedule := schedule }).1 = result) :
    ((session >>= fun _ => x) c).1 = (session c).1.bind fun _ => result := by
  rcases isRead_session.cases c with ⟨opened, schedule, hsession⟩
  rw [Action.bind_apply, hsession]
  cases opened with
  | error e => rfl
  | ok u => exact hx schedule

theorem puzzleTries_fst (x p puzzle : String) (index : Int) : (puzzleTries x p puzzle index c).1 =
    (session c).1.bind fun _ => if Store.holds index then .ok (c.store.ofPuzzle x p puzzle index)
      else .error .integerTooWide := by
  refine session_bind_fst fun schedule => ?_
  unfold readPuzzleTries checkInteger
  by_cases hindex : Store.holds index = true
  · rw [if_pos hindex, if_pos hindex]
    rfl
  · rw [if_neg hindex, if_neg hindex]
    rfl

/-- Where tries are in universal time, timely and consistent, the listings show what they should. -/
theorem listings (hs : c.store.Sound) (hc : c.store.Cascaded) (henrolled : c.Enrolled)
    (hutc : ∀ t ∈ c.store.tries, t.IsUtc) (hconsistent : ∀ t ∈ c.store.tries, t.Consistent)
    (htimely : ∀ t ∈ c.store.tries, t.Timely c.now) : c.Listings := by
  have hcompetition : ∀ x, c.store.Lists (fun t => t.key.competition = x) Try.competitionRank
      (c.store.ofCompetition x) :=
    fun x => hs.lists_mergeSort fun a ha b hb => Store.competitionRank_le (hutc a ha) (hutc b hb)
  have hplayer : ∀ x p, c.store.Lists (fun t => t.key.competition = x ∧ t.key.player = p)
      Try.playerRank (c.store.ofPlayer x p) :=
    fun x p => hs.lists_mergeSort fun a ha b hb => Store.playerRank_le (hutc a ha) (hutc b hb)
  have hpuzzle : ∀ x p puzzle index, c.store.Lists (fun t => t.key.competition = x ∧
      t.key.player = p ∧ t.key.puzzle = puzzle ∧ t.key.index = index) Try.puzzleRank
      (c.store.ofPuzzle x p puzzle index) :=
    fun x p puzzle index => hs.lists_mergeSort fun a ha b hb =>
      Store.puzzleRank_le (hutc a ha) (hutc b hb)
  refine ⟨hcompetition, hplayer, hpuzzle, fun x => ?_, fun x p => ?_, puzzleTries_fst, hs.storable,
    fun x users hnodup husers => ?_, fun x p puzzle index => ?_⟩
  · exact session_bind_fst fun schedule => rfl
  · exact session_bind_fst fun schedule => rfl
  · refine Store.flatMap_perm_of_lists (hcompetition x) (hplayer x) hnodup fun t ht => ?_
    rcases henrolled t ht with ⟨p, hp⟩
    rcases Directory.player?_eq_some hp with ⟨hmem, hid⟩
    exact hid ▸ husers p hmem
  · exact hs.steps_ofPuzzle hc hconsistent htimely (hpuzzle x p puzzle index)

/-- After calls that start without tries, first some that run together and then any others, while the
clock keeps universal time and never goes back, the listings show what they should. -/
theorem listings_run (c : Contest) (calls : List (Opening ⊕ Submission)) (moves : List Crowd.Move)
    (events : List Event) (hutc : ∀ m ∈ c.readings moves events, m.IsUtc)
    (hforward : Moment.Forward (c.readings moves events)) :
    (((Crowd.begin c calls).run moves).contest.season events).Listings := by
  have hcrowd := Crowd.sound_run c calls moves
  have hseason := sound_season hcrowd.store hcrowd.cascaded events
  have hnow : c.now.IsUtc := hutc _ List.mem_cons_self
  rcases (Crowd.sound_begin c calls).leads_run (Crowd.dated_begin hnow calls) moves
    (fun m hm => hutc m (List.mem_cons_of_mem _ (List.mem_append_left _ hm))) with ⟨htogether, hdated⟩
  have hevents := leads_season hcrowd.store hcrowd.cascaded hdated.now events
    (fun m hm => hutc m (List.mem_cons_of_mem _ (List.mem_append_right _ hm)))
  have hleads := htogether.trans hevents
  have henrolled := enrolled_season hcrowd.store hcrowd.cascaded (Crowd.enrolled_run
    (Crowd.sound_begin c calls) (fun t ht => absurd ht List.not_mem_nil) moves) events
  rcases (Crowd.timely_begin c calls).run (Crowd.sound_begin c calls) hforward with
    ⟨htimely, hforward'⟩
  exact listings hseason.1 hseason.2 henrolled
    (Store.Leads.isUtc hleads fun t ht => absurd ht List.not_mem_nil)
    (Store.Leads.consistent hleads Store.sound_empty fun t ht => absurd ht List.not_mem_nil)
    (timely_season hcrowd.store hcrowd.cascaded htimely.rows hforward')

/-- A first step is solved in the instant in which it was opened, and somebody else comes later. -/
theorem listings_run_sample :
    let c : Contest := { sample with directory.players := sample.directory.players ++
      [{ id := "other", firstName := "Other", lastName := "Player" }] }
    let moves := List.replicate 10 (.turn 0) ++ List.replicate 10 (.turn 1) ++
      [.clock { wall := sample.now.wall + 60000000, offset := some 0 }]
    let events : List Event := [.call (.caller 2) (.trigger { sampleOpening with player := "other" })]
    let crowd := Crowd.begin c [.inl sampleOpening,
      .inr { sampleSubmission with answer := "42", correct := true }]
    let final := (crowd.run moves).contest.season events
    (∀ m ∈ c.readings moves events, m.IsUtc) ∧ Moment.Forward (c.readings moves events) ∧
      final.Listings ∧
      final.store.tries.map (fun t => (t.key.player, t.key.step, t.start.since sample.now)) =
        [("player", 1, 0), ("player", 2, 0), ("other", 1, 60000000)] := by
  intro c moves events crowd final
  have hutc : ∀ m ∈ c.readings moves events, m.IsUtc := by
    unfold Moment.IsUtc
    decide +kernel
  have hforward : Moment.Forward (c.readings moves events) := by decide +kernel
  exact ⟨hutc, hforward, listings_run c _ moves events hutc hforward, by decide +kernel⟩

end Contest

end PuzzleContest
