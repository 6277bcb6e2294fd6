import Mathlib.Data.List.Basic
import PuzzleContest.Contest.Call
import PuzzleContest.Proofs.Change

/-!
# What a player sees in a competition

A player's seat in a competition is the player together with the competition.  From a seat one sees
the tries with this player and this competition in their keys, and what is announced of them.  The
numbers of tries say how many other ones there are, so they are left out of what is seen.

Main results:

- `Store.shown`: the tries that are seen from a seat, without their numbers.
- `Store.map_find?`, `Store.unlocks_eq`, `Store.map_ofPuzzle`, `Store.map_ofPlayer`: look-ups,
  permissions and listings from a seat depend on what is seen there.
- `Store.shown_add`, `Store.shown_replace`: what is seen of a new try and of a changed one.
- `Store.Change.shown_of_ne`: a change on another seat is not seen.
-/

namespace PuzzleContest

/-! ## Numbers -/

/-- A try under another number. -/
def Try.renumber (f : Nat → Nat) (t : Try Nat) : Try Nat := { t with id := f t.id }

/-- A snapshot of a try under another number. -/
def Snapshot.renumber (f : Nat → Nat) (s : Snapshot Nat) : Snapshot Nat :=
  { s with entry := s.entry.renumber f }

/-- The announcement of a try under another number. -/
def Announcement.renumber (f : Nat → Nat) (a : Announcement Nat) : Announcement Nat :=
  { a with snapshot := a.snapshot.renumber f }

/-- The verdict on a try under another number. -/
def Verdict.renumber (f : Nat → Nat) (v : Verdict) : Verdict := { v with entry := v.entry.renumber f }

/-- An answer with its tries under other numbers. -/
def Answer.renumber (f : Nat → Nat) : Answer → Answer
  | .entry t => .entry (t.renumber f)
  | .entries ts => .entries (ts.map (Try.renumber f))
  | .snapshots ss => .snapshots (ss.map (Snapshot.renumber f))
  | .verdict v => .verdict (v.renumber f)
  | .document value => .document value
  | .permission granted => .permission granted
  | .player p => .player p
  | .competition x => .competition x

/-- The number that is given in the place of any other one. -/
def blank (_ : Nat) : Nat := 0

/-- Tries that are the same but for their numbers. -/
theorem Try.exists_id_of_renumber {f : Nat → Nat} {t u : Try Nat} (h : u.renumber f = t.renumber f) :
    ∃ n, u = { t with id := n } := by
  refine ⟨u.id, ?_⟩
  cases t
  cases u
  simp only [renumber, Try.mk.injEq] at h ⊢
  exact ⟨trivial, h.2⟩

theorem Try.isFinished_of_renumber {f : Nat → Nat} {t u : Try Nat}
    (h : u.renumber f = t.renumber f) : u.isFinished = t.isFinished := by
  rcases exists_id_of_renumber h with ⟨n, rfl⟩
  rfl

theorem Try.attempts_of_renumber {f : Nat → Nat} {t u : Try Nat}
    (h : u.renumber f = t.renumber f) : u.attempts = t.attempts := by
  rcases exists_id_of_renumber h with ⟨n, rfl⟩
  rfl

theorem Try.level_of_renumber {f : Nat → Nat} {t u : Try Nat}
    (h : u.renumber f = t.renumber f) : u.level = t.level := by
  rcases exists_id_of_renumber h with ⟨n, rfl⟩
  rfl

/-- Without its number, a try is answered as it is with it. -/
theorem Try.answered?_renumber (f : Nat → Nat) (t : Try Nat) (now : Moment) (answer : String)
    (correct : Bool) :
    (t.renumber f).answered? now answer correct =
      (t.answered? now answer correct).map (Try.renumber f) := by
  unfold answered?
  cases correct with
  | false => rfl
  | true =>
    simp only [if_true, Option.map_map]
    rfl

/-! ## Seats -/

/-- A player in a competition. -/
structure Seat where
  competition : String
  player : String
deriving DecidableEq, Repr

/-- The seat of a key. -/
def Try.Key.seat (key : Try.Key) : Seat := ⟨key.competition, key.player⟩

namespace Store

variable {s s' : Store} {key : Try.Key} {seat : Seat} {t row : Try Nat}

/-- The tries of a seat. -/
def ofSeat (s : Store) (seat : Seat) : List (Try Nat) := s.tries.filter fun t => t.key.seat = seat

/-- The tries that are seen from a seat, without their numbers. -/
def shown (s : Store) (seat : Seat) : List (Try Nat) := (s.ofSeat seat).map (Try.renumber blank)

/-! ## Look-ups from a seat -/

/-- What a look-up finds, but for the number, is seen from the seat of its key. -/
theorem map_find? (s : Store) (key : Try.Key) :
    (s.find? key).map (Try.renumber blank) = (s.shown key.seat).find? fun t => t.key = key := by
  have hseat : (s.ofSeat key.seat).find? (fun t => t.key = key) = s.find? key := by
    unfold ofSeat find?
    rw [List.find?_filter]
    congr 1
    funext t
    by_cases h : t.key = key <;> simp [h]
  unfold shown
  rw [List.find?_map, ← hseat]
  rfl

theorem any_shown (s : Store) (seat : Seat) {p : Try Nat → Bool}
    (hp : ∀ t, p (t.renumber blank) = p t) : (s.shown seat).any p = (s.ofSeat seat).any p := by
  unfold shown
  rw [List.any_map]
  congr 1
  funext t
  exact hp t

theorem filter_shown (s : Store) (seat : Seat) {p : Try Nat → Bool}
    (hp : ∀ t, p (t.renumber blank) = p t) :
    (s.shown seat).filter p = ((s.ofSeat seat).filter p).map (Try.renumber blank) := by
  unfold shown
  rw [List.filter_map]
  congr 2
  funext t
  exact hp t

/-- A permission depends on what is seen from the seat. -/
theorem unlocks_eq (s : Store) (competition player : String) (index : Int) :
    s.unlocks competition player index = (decide (index = 0) ||
      (s.shown ⟨competition, player⟩).any fun t =>
        decide (t.key.index = index - 1) && t.isFinished) := by
  rw [any_shown _ _ (fun _ => rfl)]
  unfold unlocks ofSeat
  rw [List.any_filter]
  congr 2
  funext t
  simp [Try.Key.seat, Bool.and_assoc]

/-- The listing of a puzzle, but for the numbers, depends on what is seen from the seat. -/
theorem map_ofPuzzle (s : Store) (competition player puzzle : String) (index : Int) :
    (s.ofPuzzle competition player puzzle index).map (Try.renumber blank) =
      ((s.shown ⟨competition, player⟩).filter fun t =>
        decide (t.key.puzzle = puzzle) && decide (t.key.index = index)).mergeSort
          fun a b => (puzzleOrder a b).isLE := by
  unfold ofPuzzle
  refine (List.map_mergeSort (s := fun a b => (puzzleOrder a b).isLE) fun _ _ _ _ => rfl).trans ?_
  rw [filter_shown _ _ (fun _ => rfl)]
  unfold ofSeat
  rw [List.filter_filter]
  congr 2
  refine List.filter_congr fun t _ => ?_
  simp only [Try.Key.seat, Seat.mk.injEq, Bool.decide_and]
  ac_rfl

/-- So does the listing of a player. -/
theorem map_ofPlayer (s : Store) (competition player : String) :
    (s.ofPlayer competition player).map (Try.renumber blank) =
      (s.shown ⟨competition, player⟩).mergeSort fun a b => (playerOrder a b).isLE := by
  unfold ofPlayer shown ofSeat
  refine (List.map_mergeSort (s := fun a b => (playerOrder a b).isLE) fun _ _ _ _ => rfl).trans ?_
  congr 2
  refine List.filter_congr fun t _ => ?_
  simp [Try.Key.seat]

/-! ## Changes seen from a seat -/

/-- A new try is seen from its seat. -/
theorem shown_add {level : String} {start : Moment} (h : s.add? key level start = some (t, s'))
    (seat : Seat) :
    s'.shown seat = s.shown seat ++
      if key.seat = seat then [(fresh s.issued key level start).renumber blank] else [] := by
  rcases add?_eq_some_iff.1 h with ⟨-, ht, hs'⟩
  have hkey : (fresh s.issued key level start).key = key := rfl
  unfold shown ofSeat
  rw [hs', ht, List.filter_append, List.map_append]
  congr 1
  by_cases hseat : key.seat = seat <;> simp [hkey, hseat]

/-- Where the same is seen, a new try is made in both stores or in none, and the same is seen again. -/
theorem add?_cases_of_shown (key : Try.Key) (h : s'.shown key.seat = s.shown key.seat)
    (level : String) (start : Moment) :
    s.add? key level start = none ∧ s'.add? key level start = none ∨
      ∃ t store t' store', s.add? key level start = some (t, store) ∧
        s'.add? key level start = some (t', store') ∧ t'.renumber blank = t.renumber blank ∧
        store'.shown key.seat = store.shown key.seat := by
  have hfind : (s'.find? key).map (Try.renumber blank) = (s.find? key).map (Try.renumber blank) := by
    rw [map_find?, map_find?, h]
  cases hrow : s.find? key with
  | some row =>
    rw [hrow] at hfind
    rcases Option.map_eq_some_iff.1 hfind with ⟨row', hrow', -⟩
    refine .inl ⟨?_, ?_⟩
    · simp only [add?, hrow]
    · simp only [add?, hrow']
  | none =>
    rw [hrow] at hfind
    have hrow' : s'.find? key = none := Option.map_eq_none_iff.1 hfind
    have hadd : s.add? key level start = some (_, _) := add?_eq_some_iff.2 ⟨hrow, rfl, rfl⟩
    have hadd' : s'.add? key level start = some (_, _) := add?_eq_some_iff.2 ⟨hrow', rfl, rfl⟩
    refine .inr ⟨_, _, _, _, hadd, hadd', rfl, ?_⟩
    rw [shown_add hadd, shown_add hadd', h]
    rfl

/-- A changed try is seen from its seat in the place of the old one. -/
theorem shown_replace (hs : s.Sound) (hrow : s.find? key = some row) (hid : t.id = row.id)
    (hkey : t.key = key) (seat : Seat) :
    (s.replace t).shown seat =
      (s.shown seat).map fun u => if u.key = key then t.renumber blank else u := by
  have hmem := mem_of_find? hrow
  have hrowKey := key_of_find? hrow
  have hreplaced : (s.replace t).tries = s.tries.map fun u => if u.key = key then t else u := by
    rw [hs.tries_replace hmem hid]
    refine List.map_congr_left fun u hu => ?_
    by_cases h : u.key = key
    · have hu' : u = row := hs.eq_of_key hu hmem (h.trans hrowKey.symm)
      rw [if_pos hu', if_pos h]
    · have hne : u ≠ row := fun heq => h (heq ▸ hrowKey)
      rw [if_neg hne, if_neg h]
  unfold shown ofSeat
  rw [hreplaced, List.filter_map, List.map_map, List.map_map]
  have hseat : ((fun u : Try Nat => decide (u.key.seat = seat)) ∘
      fun u => if u.key = key then t else u) = fun u => decide (u.key.seat = seat) := by
    funext u
    by_cases h : u.key = key <;> simp [h, hkey]
  rw [hseat]
  refine List.map_congr_left fun u _ => ?_
  by_cases h : u.key = key <;> simp [h, Try.renumber]

theorem key_seat_of_mem_shown (ht : t ∈ s.shown seat) : t.key.seat = seat := by
  rcases List.mem_map.1 ht with ⟨u, hu, rfl⟩
  simpa [Try.renumber] using (List.mem_filter.1 hu).2

/-- A try that is changed elsewhere is not seen. -/
theorem shown_replace_of_ne (hs : s.Sound) (hrow : s.find? key = some row) (hid : t.id = row.id)
    (hkey : t.key = key) (hne : key.seat ≠ seat) : (s.replace t).shown seat = s.shown seat := by
  have hsame : ∀ u ∈ s.shown seat, (if u.key = key then t.renumber blank else u) = id u := by
    intro u hu
    have hseat := key_seat_of_mem_shown hu
    refine if_neg fun h => ?_
    rw [h] at hseat
    exact hne hseat
  rw [shown_replace hs hrow hid hkey, List.map_congr_left hsame, List.map_id]

/-- What a change tells is about tries of the seat of its key. -/
theorem Change.seat_of_mem {deal : Deal} {tidings : List Tiding}
    (h : s.Change key deal s' tidings) {n : Tiding} (hn : n ∈ tidings) : n.1.key.seat = key.seat := by
  have hanswered : ∀ {row u : Try Nat} {now : Moment} {answer : String} {correct : Bool},
      s.find? key = some row → row.answered? now answer correct = some u → u.key.seat = key.seat := by
    intro row u now answer correct hrow hanswer
    rw [(Try.answered_of_eq_some hanswer).key_eq, key_of_find? hrow]
  cases h with
  | opened hstep hindex hadd =>
    rw [List.mem_singleton.1 hn, (add?_eq_some_iff.1 hadd).2.1]
    rfl
  | counted hrow hopen hanswer hlast =>
    rw [List.mem_singleton.1 hn]
    exact hanswered hrow hanswer
  | solved hstep hrow hopen hanswer hadd =>
    rcases List.mem_cons.1 hn with rfl | hn
    · exact hanswered hrow hanswer
    · rw [List.mem_singleton.1 hn, (add?_eq_some_iff.1 hadd).2.1]
      rfl

/-- A change on another seat is not seen. -/
theorem Change.shown_of_ne {deal : Deal} {tidings : List Tiding} (hs : s.Sound)
    (h : s.Change key deal s' tidings) (hne : key.seat ≠ seat) : s'.shown seat = s.shown seat := by
  cases h with
  | opened hstep hindex hadd =>
    rw [shown_add hadd, if_neg hne, List.append_nil]
  | counted hrow hopen hanswer hlast =>
    have hanswered := Try.answered_of_eq_some hanswer
    exact shown_replace_of_ne hs hrow hanswered.id_eq
      (hanswered.key_eq.trans (key_of_find? hrow)) hne
  | solved hstep hrow hopen hanswer hadd =>
    have hanswered := Try.answered_of_eq_some hanswer
    have hnext : key.next.seat ≠ seat := hne
    rw [shown_add hadd, if_neg hnext, List.append_nil]
    exact shown_replace_of_ne hs hrow hanswered.id_eq
      (hanswered.key_eq.trans (key_of_find? hrow)) hne

end Store

end PuzzleContest
