import Mathlib.Data.List.Nodup
import PuzzleContest.Lock.Registry

/-!
# Laws of the keyed locks

In a sound registry of keyed locks every entry has a holder, and its counter is the number of its
users.  Whoever holds a key goes on holding it until it leaves, and whoever waits for a key goes on
waiting until it withdraws or is the next holder.

Main results:

- `Registry.Sound.enter`, `leave`, `withdraw`: the three operations keep a registry sound.
- `Registry.holder?_enter`, `holder?_leave`, `holder?_withdraw`: what they do to the holders.
- `Registry.uses_enter`, `uses_leave`, `uses_withdraw`: what they do to the users.
- `Registry.Reached.orderly`: whatever tasks do, there is one balanced entry for each key in use.
- `Registry.Orderly.entries_leave_enter`, `entries_withdraw_enter`: who comes and goes leaves no trace.
-/

namespace PuzzleContest.Lock

variable {κ τ : Type}

namespace Entry

variable {e : Entry τ} {task : τ}

/-- A lock in use is held, and its counter is the number of its users. -/
structure Balanced (e : Entry τ) : Prop where
  held : e.holder.isSome = true
  users_eq : e.users = e.waiters.length + 1

theorem Balanced.join_eq (h : e.Balanced) (task : τ) :
    e.join task = { e with users := e.users + 1, waiters := e.waiters ++ [task] } := by
  have hheld : e.holder.isNone = false := by
    rw [← Option.not_isSome, h.held]
    rfl
  simp [join, hheld]

theorem Balanced.handOver (he : e.Balanced) (hu : ¬e.handOver.users = 0) :
    e.handOver.Balanced := by
  have hlength : e.users - 1 = e.waiters.length := by
    rw [he.users_eq]
    rfl
  cases hw : e.waiters with
  | nil =>
    rw [hw] at hlength
    exact absurd hlength hu
  | cons t rest =>
    refine ⟨by simp [Entry.handOver, hw], ?_⟩
    simp [Entry.handOver, hw, hlength]

theorem Balanced.forget [DecidableEq τ] (he : e.Balanced) (hwait : task ∈ e.waiters) :
    (e.forget task).Balanced ∧ ¬(e.forget task).users = 0 := by
  have hpos : 0 < e.waiters.length := List.length_pos_of_mem hwait
  have hlength : (e.waiters.erase task).length = e.waiters.length - 1 :=
    List.length_erase_of_mem hwait
  refine ⟨⟨he.held, ?_⟩, ?_⟩
  · simp only [Entry.forget, he.users_eq, hlength]
    omega
  · simp only [Entry.forget, he.users_eq]
    omega

end Entry

namespace Registry

variable [DecidableEq κ] {r : Registry κ τ} {key k : κ} {task t : τ} {e : Entry τ}

/-- Every lock in use is balanced. -/
def Sound (r : Registry κ τ) : Prop := ∀ key e, r.find? key = some e → e.Balanced

/-- A task holds or awaits the lock of a key. -/
def Uses (r : Registry κ τ) (key : κ) (task : τ) : Prop :=
  ∃ e, r.find? key = some e ∧ (e.holder = some task ∨ task ∈ e.waiters)

theorem sound_empty : Sound ({} : Registry κ τ) := by
  intro key e h
  exact absurd h (by simp [find?])

theorem holder?_of_find? (h : r.find? key = some e) : r.holder? key = e.holder := by
  simp [holder?, h]

/-! ## Look-ups -/

theorem find?_replace (h : r.find? key = some e) (e' : Entry τ) (k : κ) :
    (r.replace key e').find? k = if k = key then some e' else r.find? k := by
  unfold find? at h
  simp only [find?, replace, List.find?_map, Option.map_map]
  have hpred : ((fun p : κ × Entry τ => decide (p.1 = k)) ∘
      fun p => if p.1 = key then (key, e') else p) = fun p => decide (p.1 = k) := by
    funext p
    by_cases hp : p.1 = key <;> simp [hp]
  rw [hpred]
  by_cases hk : k = key
  · subst hk
    obtain ⟨p, hp, -⟩ := Option.map_eq_some_iff.1 h
    have hkey : p.1 = k := by simpa using List.find?_some hp
    rw [hp, if_pos rfl]
    simp [hkey]
  · rw [if_neg hk]
    cases hfind : r.entries.find? fun p => decide (p.1 = k) with
    | none => rfl
    | some p =>
      have hkey : p.1 = k := by simpa using List.find?_some hfind
      have hne : ¬p.1 = key := fun h => hk (hkey.symm.trans h)
      simp [hne]

theorem find?_drop (r : Registry κ τ) (key k : κ) :
    (r.drop key).find? k = if k = key then none else r.find? k := by
  simp only [find?, drop, List.find?_filter]
  by_cases hk : k = key
  · subst hk
    rw [if_pos rfl, Option.map_eq_none_iff, List.find?_eq_none]
    intro p _
    by_cases hp : p.1 = k <;> simp [hp]
  · rw [if_neg hk]
    congr 2
    funext p
    by_cases hp : p.1 = k
    · simp [hp, hk]
    · simp [hp]

theorem find?_keep (h : r.find? key = some e) (e' : Entry τ) (k : κ) :
    (r.keep key e').find? k =
      if k = key then (if e'.users = 0 then none else some e') else r.find? k := by
  unfold keep
  by_cases hu : e'.users = 0
  · rw [if_pos hu, if_pos hu, find?_drop]
  · rw [if_neg hu, if_neg hu, find?_replace h]

theorem find?_enter (r : Registry κ τ) (key : κ) (task : τ) (k : κ) :
    (r.enter key task).find? k =
      if k = key then some (((r.find? key).map fun e => e.join task).getD (.fresh r.issued task))
      else r.find? k := by
  unfold enter
  cases hfind : r.find? key with
  | some e => rw [find?_replace hfind]; rfl
  | none =>
    have hnone : (r.entries.find? fun p => decide (p.1 = key)) = none := by
      simpa [find?] using hfind
    simp only [find?, List.find?_append, List.find?_singleton]
    by_cases hk : k = key
    · subst hk
      simp [hnone]
    · have hne : ¬key = k := fun h => hk h.symm
      simp [hk, hne]

theorem find?_leave (h : r.find? key = some e) (k : κ) :
    (r.leave key).find? k =
      if k = key then (if e.handOver.users = 0 then none else some e.handOver) else r.find? k := by
  unfold leave
  rw [h]
  exact find?_keep h e.handOver k

/-! ## Asking for a lock -/

theorem Sound.enter (hr : r.Sound) (key : κ) (task : τ) : (r.enter key task).Sound := by
  intro k e h
  rw [find?_enter] at h
  by_cases hk : k = key
  · rw [if_pos hk, Option.some.injEq] at h
    subst h
    cases hfind : r.find? key with
    | none => exact ⟨rfl, rfl⟩
    | some e =>
      have he := hr key e hfind
      simp only [Option.map_some, Option.getD_some]
      rw [he.join_eq]
      exact ⟨he.held, by simp [he.users_eq]⟩
  · rw [if_neg hk] at h
    exact hr k e h

/-- A newcomer takes no key from its holder. -/
theorem holder?_enter (hr : r.Sound) (task : τ) (h : r.holder? k = some t) :
    (r.enter key task).holder? k = some t := by
  unfold holder? at h ⊢
  obtain ⟨e, hfind, hholder⟩ := Option.bind_eq_some_iff.1 h
  rw [find?_enter]
  by_cases hk : k = key
  · subst hk
    rw [if_pos rfl, hfind]
    simp only [Option.map_some, Option.getD_some, Option.bind_some]
    rw [(hr k e hfind).join_eq]
    exact hholder
  · rw [if_neg hk]
    exact h

theorem uses_enter_self (hr : r.Sound) (key : κ) (task : τ) : (r.enter key task).Uses key task := by
  unfold Uses
  rw [find?_enter, if_pos rfl]
  refine ⟨_, rfl, ?_⟩
  cases hfind : r.find? key with
  | none => exact .inl rfl
  | some e =>
    simp only [Option.map_some, Option.getD_some]
    rw [(hr key e hfind).join_eq]
    exact .inr (List.mem_append_right _ List.mem_cons_self)

theorem uses_enter (hr : r.Sound) (task : τ) (h : r.Uses k t) : (r.enter key task).Uses k t := by
  obtain ⟨e, hfind, huse⟩ := h
  unfold Uses
  rw [find?_enter]
  by_cases hk : k = key
  · subst hk
    rw [if_pos rfl, hfind]
    refine ⟨_, rfl, ?_⟩
    simp only [Option.map_some, Option.getD_some]
    rw [(hr k e hfind).join_eq]
    exact huse.imp_right (List.mem_append_left _)
  · rw [if_neg hk]
    exact ⟨e, hfind, huse⟩

/-! ## Leaving a lock -/

theorem Sound.leave (hr : r.Sound) (key : κ) : (r.leave key).Sound := by
  intro k e h
  cases hfind : r.find? key with
  | none =>
    simp only [Registry.leave, hfind] at h
    exact hr k e h
  | some e₀ =>
    rw [find?_leave hfind] at h
    by_cases hk : k = key
    · rw [if_pos hk] at h
      by_cases hu : e₀.handOver.users = 0
      · rw [if_pos hu] at h
        exact absurd h (by simp)
      · rw [if_neg hu, Option.some.injEq] at h
        exact h ▸ (hr key e₀ hfind).handOver hu
    · rw [if_neg hk] at h
      exact hr k e h

/-- Leaving one key does nothing to the holder of another one. -/
theorem holder?_leave (hk : k ≠ key) : (r.leave key).holder? k = r.holder? k := by
  unfold holder?
  cases hfind : r.find? key with
  | none => simp [leave, hfind]
  | some e => rw [find?_leave hfind, if_neg hk]

/-- Whoever uses a key without holding it still uses it after the holder left. -/
theorem uses_leave (hr : r.Sound) (hnot : r.holder? key ≠ some t) (h : r.Uses k t) :
    (r.leave key).Uses k t := by
  obtain ⟨e, hfind, huse⟩ := h
  unfold Uses
  by_cases hk : k = key
  · subst hk
    rw [holder?_of_find? hfind] at hnot
    have hwait : t ∈ e.waiters := huse.resolve_left hnot
    rw [find?_leave hfind, if_pos rfl]
    obtain ⟨first, rest, hw⟩ := List.exists_cons_of_ne_nil (List.ne_nil_of_mem hwait)
    have hu : ¬e.handOver.users = 0 := by
      simp [Entry.handOver, (hr k e hfind).users_eq, hw]
    rw [if_neg hu]
    refine ⟨_, rfl, ?_⟩
    rw [hw] at hwait
    rcases List.mem_cons.1 hwait with rfl | hrest
    · exact .inl (by simp [Entry.handOver, hw])
    · exact .inr (by simp [Entry.handOver, hw, hrest])
  · refine ⟨e, ?_, huse⟩
    cases hkey : r.find? key with
    | none => simp [leave, hkey, hfind]
    | some e₀ => rw [find?_leave hkey, if_neg hk, hfind]

/-! ## Giving up -/

/-- One who waits for a lock finds its entry, with its own place among those who wait. -/
theorem waits_of_uses (huse : r.Uses key task) (hnot : r.holder? key ≠ some task) :
    ∃ e, r.find? key = some e ∧ task ∈ e.waiters := by
  obtain ⟨e, hfind, h⟩ := huse
  rw [holder?_of_find? hfind] at hnot
  exact ⟨e, hfind, h.resolve_left hnot⟩

variable [DecidableEq τ]

theorem find?_withdraw (h : r.find? key = some e) (task : τ) (k : κ) :
    (r.withdraw key task).find? k =
      if k = key then (if (e.forget task).users = 0 then none else some (e.forget task))
      else r.find? k := by
  unfold withdraw
  rw [h]
  exact find?_keep h (e.forget task) k

theorem find?_withdraw_of_uses (hr : r.Sound) (huse : r.Uses key task)
    (hnot : r.holder? key ≠ some task) :
    ∃ e, r.find? key = some e ∧ task ∈ e.waiters ∧
      ∀ k, (r.withdraw key task).find? k = if k = key then some (e.forget task) else r.find? k := by
  obtain ⟨e, hfind, hwait⟩ := waits_of_uses huse hnot
  refine ⟨e, hfind, hwait, fun k => ?_⟩
  rw [find?_withdraw hfind, if_neg ((hr key e hfind).forget hwait).2]

theorem Sound.withdraw (hr : r.Sound) (huse : r.Uses key task)
    (hnot : r.holder? key ≠ some task) : (r.withdraw key task).Sound := by
  intro k e h
  obtain ⟨e₀, hfind, hwait, hwithdraw⟩ := find?_withdraw_of_uses hr huse hnot
  rw [hwithdraw] at h
  by_cases hk : k = key
  · rw [if_pos hk, Option.some.injEq] at h
    exact h ▸ ((hr key e₀ hfind).forget hwait).1
  · rw [if_neg hk] at h
    exact hr k e h

/-- One who gives up takes no key from its holder. -/
theorem holder?_withdraw (hr : r.Sound) (huse : r.Uses key task)
    (hnot : r.holder? key ≠ some task) (k : κ) :
    (r.withdraw key task).holder? k = r.holder? k := by
  obtain ⟨e, hfind, -, hwithdraw⟩ := find?_withdraw_of_uses hr huse hnot
  unfold holder?
  rw [hwithdraw]
  by_cases hk : k = key
  · subst hk
    rw [if_pos rfl, hfind]
    rfl
  · rw [if_neg hk]

/-- One who gives up takes no other user's place. -/
theorem uses_withdraw (hr : r.Sound) (huse : r.Uses key task) (hnot : r.holder? key ≠ some task)
    (hne : t ≠ task) (h : r.Uses k t) : (r.withdraw key task).Uses k t := by
  obtain ⟨e, hfind, -, hwithdraw⟩ := find?_withdraw_of_uses hr huse hnot
  obtain ⟨e', hfind', huse'⟩ := h
  unfold Uses
  rw [hwithdraw]
  by_cases hk : k = key
  · subst hk
    rw [hfind, Option.some.injEq] at hfind'
    subst hfind'
    rw [if_pos rfl]
    exact ⟨_, rfl, huse'.imp_right (List.mem_erase_of_ne hne).2⟩
  · rw [if_neg hk]
    exact ⟨e', hfind', huse'⟩

end Registry

/-! ## Orderly registries -/

namespace Registry

variable [DecidableEq κ] {r r' : Registry κ τ} {key k : κ} {task : τ} {e e' : Entry τ}

/-- One entry for each key in use, and every lock in use is balanced. -/
structure Orderly (r : Registry κ τ) : Prop where
  sound : r.Sound
  keys_nodup : (r.entries.map (·.1)).Nodup

theorem find?_congr (h : r.entries = r'.entries) (k : κ) : r.find? k = r'.find? k := by
  unfold find?
  rw [h]

theorem Orderly.congr (hr : r.Orderly) (h : r'.entries = r.entries) : r'.Orderly := by
  refine ⟨?_, by rw [h]; exact hr.keys_nodup⟩
  intro key e he
  rw [find?_congr h] at he
  exact hr.sound key e he

theorem not_mem_keys_of_find? (h : r.find? key = none) : key ∉ r.entries.map (·.1) := by
  intro hmem
  rcases List.mem_map.1 hmem with ⟨p, hp, hkey⟩
  simp only [find?, Option.map_eq_none_iff, List.find?_eq_none] at h
  exact h p hp (by simpa using hkey)

theorem keys_replace (r : Registry κ τ) (key : κ) (e : Entry τ) :
    (r.replace key e).entries.map (·.1) = r.entries.map (·.1) := by
  simp only [replace, List.map_map]
  refine List.map_congr_left fun p _ => ?_
  by_cases hp : p.1 = key <;> simp [hp]

theorem keys_nodup_keep (h : (r.entries.map (·.1)).Nodup) (key : κ) (e : Entry τ) :
    ((r.keep key e).entries.map (·.1)).Nodup := by
  unfold keep
  by_cases hu : e.users = 0
  · rw [if_pos hu]
    exact h.sublist (List.filter_sublist.map _)
  · rw [if_neg hu, keys_replace]
    exact h

/-- A registry that tasks have brought about by asking for locks, leaving them and giving up. -/
inductive Reached [DecidableEq τ] : Registry κ τ → Prop where
  | empty : Reached {}
  | enter {r : Registry κ τ} (h : Reached r) (key : κ) (task : τ) : Reached (r.enter key task)
  | leave {r : Registry κ τ} (h : Reached r) (key : κ) : Reached (r.leave key)
  | withdraw {r : Registry κ τ} {key : κ} {task : τ} (h : Reached r) (huse : r.Uses key task)
      (hnot : r.holder? key ≠ some task) : Reached (r.withdraw key task)

theorem orderly_empty : Orderly ({} : Registry κ τ) := ⟨sound_empty, List.nodup_nil⟩

theorem Orderly.enter (hr : r.Orderly) (key : κ) (task : τ) : (r.enter key task).Orderly := by
  refine ⟨hr.sound.enter key task, ?_⟩
  unfold Registry.enter
  cases hfind : r.find? key with
  | some e =>
    simp only
    rw [keys_replace]
    exact hr.keys_nodup
  | none =>
    have hnew : key ∉ r.entries.map (·.1) := not_mem_keys_of_find? hfind
    simp only [List.map_append, List.map_cons, List.map_nil]
    rw [List.nodup_append']
    exact ⟨hr.keys_nodup, List.nodup_singleton _, by simpa using hnew⟩

theorem Orderly.leave (hr : r.Orderly) (key : κ) : (r.leave key).Orderly := by
  refine ⟨hr.sound.leave key, ?_⟩
  unfold Registry.leave
  cases hfind : r.find? key with
  | some e => exact keys_nodup_keep hr.keys_nodup key _
  | none => exact hr.keys_nodup

theorem Orderly.withdraw [DecidableEq τ] (hr : r.Orderly) (huse : r.Uses key task)
    (hnot : r.holder? key ≠ some task) : (r.withdraw key task).Orderly := by
  refine ⟨hr.sound.withdraw huse hnot, ?_⟩
  unfold Registry.withdraw
  cases hfind : r.find? key with
  | some e => exact keys_nodup_keep hr.keys_nodup key _
  | none => exact hr.keys_nodup

/-- Whatever tasks do, a registry stays orderly. -/
theorem Reached.orderly [DecidableEq τ] (h : r.Reached) : r.Orderly := by
  induction h with
  | empty => exact orderly_empty
  | enter h key task ih => exact ih.enter key task
  | leave h key ih => exact ih.leave key
  | withdraw h huse hnot ih => exact ih.withdraw huse hnot

/-! ## Coming and going -/

theorem Orderly.entries_replace_self (hr : r.Orderly) (h : r.find? key = some e) :
    (r.replace key e).entries = r.entries := by
  simp only [replace]
  conv_rhs => rw [← List.map_id r.entries]
  refine List.map_congr_left fun p hp => ?_
  by_cases hkey : p.1 = key
  · rcases Option.map_eq_some_iff.1 h with ⟨q, hq, hqe⟩
    have hqkey : q.1 = key := by simpa using List.find?_some hq
    have hpq : p = q :=
      List.inj_on_of_nodup_map hr.keys_nodup hp (List.mem_of_find?_eq_some hq)
        (hkey.trans hqkey.symm)
    rw [if_pos hkey, hpq, ← hqe, ← hqkey]
    rfl
  · rw [if_neg hkey]
    rfl

theorem replace_replace (r : Registry κ τ) (key : κ) (e e' : Entry τ) :
    (r.replace key e).replace key e' = r.replace key e' := by
  simp only [replace, List.map_map]
  congr 1
  refine List.map_congr_left fun p _ => ?_
  by_cases hp : p.1 = key <;> simp [hp]

/-- Whoever comes to a lock that nobody uses holds it. -/
theorem holds_enter [DecidableEq τ] (h : r.entries = []) (key : κ) (task : τ) :
    (r.enter key task).holds key task = true := by
  simp [Registry.enter, holds, holder?, find?, h, Entry.fresh]

/-- A newcomer that gets a lock at once has found it free. -/
theorem find?_eq_none_of_admitted (hr : r.Sound) (hnew : ¬r.Uses key task)
    (hholder : (r.enter key task).holder? key = some task) : r.find? key = none := by
  cases hfind : r.find? key with
  | none => rfl
  | some e =>
    have hkept : (r.enter key task).holder? key = e.holder := by
      rcases Option.isSome_iff_exists.1 (hr key e hfind).held with ⟨t, ht⟩
      rw [ht]
      exact holder?_enter hr task ((holder?_of_find? hfind).trans ht)
    exact absurd ⟨e, hfind, .inl (hkept.symm.trans hholder)⟩ hnew

/-- Who gets a free lock and leaves it again leaves no trace. -/
theorem Orderly.entries_leave_enter (hr : r.Orderly) (hnew : ¬r.Uses key task)
    (hholder : (r.enter key task).holder? key = some task) :
    ((r.enter key task).leave key).entries = r.entries := by
  have hnone := find?_eq_none_of_admitted hr.sound hnew hholder
  have hfind : (r.enter key task).find? key = some (.fresh r.issued task) := by
    rw [find?_enter, if_pos rfl, hnone]
    rfl
  have hkeys : ∀ p ∈ r.entries, p.1 ≠ key := by
    intro p hp hkey
    exact not_mem_keys_of_find? hnone (List.mem_map.2 ⟨p, hp, hkey⟩)
  simp only [Registry.leave, hfind, keep, Entry.handOver, Entry.fresh, if_pos, drop]
  simp only [Registry.enter, hnone, List.filter_append]
  rw [List.filter_eq_self.2 (by simpa using hkeys)]
  simp

/-- Who waits for a lock and gives up leaves no trace. -/
theorem Orderly.entries_withdraw_enter [DecidableEq τ] (hr : r.Orderly) (hnew : ¬r.Uses key task)
    (hnot : (r.enter key task).holder? key ≠ some task) :
    ((r.enter key task).withdraw key task).entries = r.entries := by
  cases hfind : r.find? key with
  | none =>
    have hholder : (r.enter key task).holder? key = some task := by
      rw [holder?, find?_enter, if_pos rfl, hfind]
      rfl
    exact absurd hholder hnot
  | some e =>
    have he := hr.sound key e hfind
    have hwait : task ∉ e.waiters := fun h => hnew ⟨e, hfind, .inr h⟩
    have henter : r.enter key task = r.replace key (e.join task) := by
      simp only [Registry.enter, hfind]
    have hjoined : (r.replace key (e.join task)).find? key = some (e.join task) := by
      rw [find?_replace hfind, if_pos rfl]
    have hback : (e.join task).forget task = e := by
      rw [he.join_eq]
      simp [Entry.forget, List.erase_append_right _ hwait]
    have husers : ¬e.users = 0 := by
      rw [he.users_eq]
      omega
    simp only [Registry.withdraw, henter, hjoined, hback, keep, if_neg husers, replace_replace]
    exact hr.entries_replace_self hfind

end Registry

end PuzzleContest.Lock
