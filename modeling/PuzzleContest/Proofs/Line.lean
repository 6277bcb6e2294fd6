import PuzzleContest.Proofs.Registry

/-!
# The line at a lock

Those who hold or await the lock of a key among the keyed locks stand in one line, with the holder in
front.  Each operation of a registry either puts a task at the end of one line or takes one out of it.
A lock keeps its serial number as long as somebody stands in its line, and a new lock gets a number
that no lock had.

Main results:

- `Registry.line`: the users of a key in order; the holder is the first of them (`holder?_eq_head?`).
- `Registry.line_enter`: a newcomer is the last of the line.
- `Registry.Sheds`: a task is taken out of a line, by leaving (`sheds_leave`) or by giving up
  (`sheds_withdraw`).
- `Registry.Numbered`: different locks have different numbers; all operations keep this.
-/

namespace PuzzleContest.Lock.Registry

variable {κ τ : Type} [DecidableEq κ] {r r' : Registry κ τ} {key k : κ} {task : τ} {e : Entry τ}

/-- Those who hold or await the lock of a key, in the order in which they asked for it. -/
def line (r : Registry κ τ) (key : κ) : List τ :=
  match r.find? key with
  | some e => e.holder.toList ++ e.waiters
  | none => []

theorem line_of_find? (h : r.find? key = some e) : r.line key = e.holder.toList ++ e.waiters := by
  simp [line, h]

theorem line_of_find?_none (h : r.find? key = none) : r.line key = [] := by
  simp [line, h]

/-- A lock in use has a holder, who stands in front of those who wait. -/
theorem Sound.exists_line_eq (hr : r.Sound) (h : r.find? key = some e) :
    ∃ t, e.holder = some t ∧ r.line key = t :: e.waiters := by
  rcases Option.isSome_iff_exists.1 (hr key e h).held with ⟨t, ht⟩
  exact ⟨t, ht, by simp [line_of_find? h, ht]⟩

theorem Sound.line_eq_nil_iff (hr : r.Sound) (key : κ) : r.line key = [] ↔ r.find? key = none := by
  cases hfind : r.find? key with
  | none => simp [line_of_find?_none hfind]
  | some e =>
    rcases hr.exists_line_eq hfind with ⟨t, -, hline⟩
    simp [hline]

/-- The counter of a lock is the length of its line. -/
theorem Sound.users_eq_length (hr : r.Sound) (h : r.find? key = some e) :
    e.users = (r.line key).length := by
  rcases hr.exists_line_eq h with ⟨t, -, hline⟩
  rw [hline, (hr key e h).users_eq, List.length_cons]

/-- The holder of a lock is the first in its line. -/
theorem Sound.holder?_eq_head? (hr : r.Sound) (key : κ) : r.holder? key = (r.line key).head? := by
  cases hfind : r.find? key with
  | none => simp [holder?, hfind, line_of_find?_none hfind]
  | some e =>
    rcases hr.exists_line_eq hfind with ⟨t, ht, hline⟩
    rw [holder?_of_find? hfind, ht, hline, List.head?_cons]

theorem mem_line_iff : task ∈ r.line key ↔ r.Uses key task := by
  unfold Uses
  cases hfind : r.find? key with
  | none => simp [line_of_find?_none hfind]
  | some e => simp [line_of_find? hfind]

/-! ## Joining a line -/

/-- A newcomer is the last of the line. -/
theorem Sound.line_enter (hr : r.Sound) (key : κ) (task : τ) (k : κ) :
    (r.enter key task).line k = if k = key then r.line key ++ [task] else r.line k := by
  by_cases hk : k = key
  · subst hk
    rw [if_pos rfl]
    cases hfind : r.find? k with
    | none =>
      have hentered : (r.enter k task).find? k = some (.fresh r.issued task) := by
        rw [find?_enter, if_pos rfl, hfind]
        rfl
      rw [line_of_find? hentered, line_of_find?_none hfind]
      rfl
    | some e =>
      have hentered : (r.enter k task).find? k = some (e.join task) := by
        rw [find?_enter, if_pos rfl, hfind]
        rfl
      rw [line_of_find? hentered, line_of_find? hfind, (hr k e hfind).join_eq]
      exact (List.append_assoc _ _ _).symm
  · rw [if_neg hk]
    unfold line
    rw [find?_enter, if_neg hk]

/-! ## Serial numbers -/

/-- A newcomer uses the lock that is there, or a new one. -/
theorem serial?_enter (r : Registry κ τ) (key : κ) (task : τ) (k : κ) :
    (r.enter key task).serial? k =
      if k = key then some ((r.serial? key).getD r.issued) else r.serial? k := by
  unfold serial?
  rw [find?_enter]
  by_cases hk : k = key
  · rw [if_pos hk, if_pos hk]
    cases hfind : r.find? key with
    | none => rfl
    | some e =>
      simp only [Option.map_some, Option.getD_some, Entry.join]
      split <;> rfl
  · rw [if_neg hk, if_neg hk]

theorem issued_le_issued_enter (r : Registry κ τ) (key : κ) (task : τ) :
    r.issued ≤ (r.enter key task).issued := by
  unfold enter
  cases r.find? key with
  | none => exact Nat.le_succ _
  | some e => exact Nat.le_refl _

theorem serial?_keep (h : r.find? key = some e) (e' : Entry τ) (hserial : e'.serial = e.serial)
    {n : Nat} (hn : (r.keep key e').serial? k = some n) : r.serial? k = some n := by
  unfold serial? at hn ⊢
  rw [find?_keep h] at hn
  by_cases hk : k = key
  · rw [if_pos hk] at hn
    rw [hk, h]
    by_cases hu : e'.users = 0
    · rw [if_pos hu] at hn
      exact absurd hn (by simp)
    · rw [if_neg hu] at hn
      simpa [hserial] using hn
  · rw [if_neg hk] at hn
    exact hn

theorem issued_keep (r : Registry κ τ) (key : κ) (e : Entry τ) : (r.keep key e).issued = r.issued := by
  unfold keep
  split <;> rfl

theorem exists_serial (h : r.line key ≠ []) : ∃ n, r.serial? key = some n := by
  cases hfind : r.find? key with
  | none => exact absurd (line_of_find?_none hfind) h
  | some e => exact ⟨e.serial, by simp [serial?, hfind]⟩

/-- Different locks have different numbers, which have been given out. -/
structure Numbered (r : Registry κ τ) : Prop where
  serial_lt : ∀ k n, r.serial? k = some n → n < r.issued
  serial_inj : ∀ k k' n, r.serial? k = some n → r.serial? k' = some n → k = k'

theorem numbered_empty : Numbered ({} : Registry κ τ) where
  serial_lt k n h := absurd h (by simp [serial?, find?])
  serial_inj k k' n h := absurd h (by simp [serial?, find?])

theorem Numbered.enter (hr : r.Numbered) (key : κ) (task : τ) : (r.enter key task).Numbered := by
  have hissued := issued_le_issued_enter r key task
  -- A new lock has the number that is given out with it.
  have hcases : ∀ k n, (r.enter key task).serial? k = some n →
      r.serial? k = some n ∨ k = key ∧ n = r.issued ∧ r.issued < (r.enter key task).issued := by
    intro k n hn
    rw [serial?_enter] at hn
    by_cases hk : k = key
    · rw [if_pos hk] at hn
      cases hserial : r.serial? key with
      | some m =>
        rw [hserial] at hn
        exact .inl (by rw [hk, hserial]; exact hn)
      | none =>
        rw [hserial] at hn
        have hnone : r.find? key = none := by simpa [serial?] using hserial
        refine .inr ⟨hk, (Option.some.inj hn).symm, ?_⟩
        simp [Registry.enter, hnone]
    · rw [if_neg hk] at hn
      exact .inl hn
  constructor
  · intro k n hn
    rcases hcases k n hn with hold | ⟨-, rfl, hlt⟩
    · exact Nat.lt_of_lt_of_le (hr.serial_lt k n hold) hissued
    · exact hlt
  · intro k k' n hn hn'
    rcases hcases k n hn with hold | ⟨rfl, rfl, -⟩
    · rcases hcases k' n hn' with hold' | ⟨-, rfl, -⟩
      · exact hr.serial_inj k k' n hold hold'
      · exact absurd (hr.serial_lt k _ hold) (Nat.lt_irrefl _)
    · rcases hcases k' _ hn' with hold' | ⟨hk', -, -⟩
      · exact absurd (hr.serial_lt k' _ hold') (Nat.lt_irrefl _)
      · exact hk'.symm

/-! ## Getting out of a line -/

variable [DecidableEq τ]

/-- A task is taken out of the line of a key.  No lock is made by that. -/
structure Sheds (r : Registry κ τ) (key : κ) (task : τ) (r' : Registry κ τ) : Prop where
  orderly : r'.Orderly
  line_eq : ∀ k, r'.line k = if k = key then (r.line key).erase task else r.line k
  serial?_eq : ∀ k n, r'.serial? k = some n → r.serial? k = some n
  issued_eq : r'.issued = r.issued

/-- Whoever leaves was in front of the line. -/
theorem Orderly.sheds_leave (hr : r.Orderly) (hholder : r.holder? key = some task) :
    r.Sheds key task (r.leave key) := by
  rcases Option.bind_eq_some_iff.1 hholder with ⟨e, hfind, ht⟩
  have hleave : r.leave key = r.keep key e.handOver := by simp only [Registry.leave, hfind]
  refine ⟨hr.leave key, fun k => ?_, fun k n hn => ?_, ?_⟩
  · by_cases hk : k = key
    · subst hk
      have hline : r.line k = task :: e.waiters := by simp [line_of_find? hfind, ht]
      rw [if_pos rfl, hline, List.erase_cons_head]
      unfold line
      rw [find?_leave hfind, if_pos rfl]
      cases hw : e.waiters with
      | nil => simp [Entry.handOver, (hr.sound k e hfind).users_eq, hw]
      | cons t rest => simp [Entry.handOver, (hr.sound k e hfind).users_eq, hw]
    · rw [if_neg hk]
      unfold line
      rw [find?_leave hfind, if_neg hk]
  · rw [hleave] at hn
    exact serial?_keep hfind e.handOver rfl hn
  · rw [hleave]
    exact issued_keep r key e.handOver

/-- Whoever gives up was in the line, but not in front of it. -/
theorem Orderly.sheds_withdraw (hr : r.Orderly) (huse : r.Uses key task)
    (hnot : r.holder? key ≠ some task) : r.Sheds key task (r.withdraw key task) := by
  rcases find?_withdraw_of_uses hr.sound huse hnot with ⟨e, hfind, -, hwithdraw⟩
  rcases hr.sound.exists_line_eq hfind with ⟨t, ht, hline⟩
  have hkeep : r.withdraw key task = r.keep key (e.forget task) := by
    simp only [Registry.withdraw, hfind]
  refine ⟨hr.withdraw huse hnot, fun k => ?_, fun k n hn => ?_, ?_⟩
  · by_cases hk : k = key
    · subst hk
      have hne : t ≠ task := by
        intro heq
        exact hnot ((holder?_of_find? hfind).trans (heq ▸ ht))
      have hfound := hwithdraw k
      rw [if_pos rfl] at hfound
      rw [if_pos rfl, hline, List.erase_cons_tail (by simpa using hne), line_of_find? hfound]
      simp [Entry.forget, ht]
    · rw [if_neg hk]
      unfold line
      rw [hwithdraw, if_neg hk]
  · rw [hkeep] at hn
    exact serial?_keep hfind (e.forget task) rfl hn
  · rw [hkeep]
    exact issued_keep r key (e.forget task)

theorem Sheds.numbered (h : r.Sheds key task r') (hr : r.Numbered) : r'.Numbered where
  serial_lt k n hn := h.issued_eq ▸ hr.serial_lt k n (h.serial?_eq k n hn)
  serial_inj k k' n hn hn' :=
    hr.serial_inj k k' n (h.serial?_eq k n hn) (h.serial?_eq k' n hn')

end PuzzleContest.Lock.Registry
