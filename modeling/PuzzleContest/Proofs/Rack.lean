import Mathlib.Logic.Function.Basic
import PuzzleContest.Proofs.Line

/-!
# Keyed locks by handle

A task finds the lock of its key once, when it comes, and from then on uses the lock that it has found,
whatever the key is mapped to later.  The registry does not know of this: there a task goes to the lock
that its key has at the moment.  The two agree, since the lock of a key is not dropped as long as
somebody uses it.

Main results:

- `Rack`: all locks that were ever made, by number, and an index of those in use.
- `Rack.registry`: the registry that a rack stands for; `registry_enter`, `registry_leave` and
  `registry_withdraw` are the three operations.
-/

namespace PuzzleContest.Lock

variable {κ τ : Type}

namespace Entry

/-- A new lock, which nobody uses. -/
def unused (n : Nat) : Entry τ := ⟨n, 0, none, []⟩

theorem join_unused (n : Nat) (task : τ) : (unused n).join task = .fresh n task := rfl

@[simp] theorem serial_join (e : Entry τ) (task : τ) : (e.join task).serial = e.serial := by
  unfold join
  split <;> rfl

@[simp] theorem serial_handOver (e : Entry τ) : e.handOver.serial = e.serial := rfl

@[simp] theorem serial_forget [DecidableEq τ] (e : Entry τ) (task : τ) :
    (e.forget task).serial = e.serial := rfl

end Entry

/-- All locks by their numbers, how many were made, and which key has which lock. -/
structure Rack (κ τ : Type) where
  locks : Nat → Entry τ := .unused
  made : Nat := 0
  index : List (κ × Nat) := []

namespace Rack

variable [DecidableEq κ] {r : Rack κ τ} {key : κ} {n : Nat}

/-- The number of keys in use. -/
def size (r : Rack κ τ) : Nat := r.index.length

/-- The number of the lock of a key. -/
def find? (r : Rack κ τ) (key : κ) : Option Nat :=
  (r.index.find? fun p => p.1 = key).map (·.2)

/-- Change one lock. -/
def change (r : Rack κ τ) (n : Nat) (f : Entry τ → Entry τ) : Rack κ τ :=
  { r with locks := Function.update r.locks n (f (r.locks n)) }

/-- A new lock for a key. -/
def make (r : Rack κ τ) (key : κ) : Rack κ τ :=
  { r with made := r.made + 1, index := r.index ++ [(key, r.made)] }

/-- The rack after a task has come to a key, and the number of the lock that it found or made. -/
def enter (r : Rack κ τ) (key : κ) (task : τ) : Rack κ τ × Nat :=
  match r.find? key with
  | some n => (r.change n (·.join task), n)
  | none => ((r.make key).change r.made (·.join task), r.made)

/-- If nobody uses a lock any more, its key is taken out of the index. -/
def tidyUp (r : Rack κ τ) (key : κ) (n : Nat) : Rack κ τ :=
  if (r.locks n).users = 0 then { r with index := r.index.filter fun p => p.1 ≠ key } else r

/-- The holder of a lock, which was found under a key, leaves. -/
def leave (r : Rack κ τ) (key : κ) (n : Nat) : Rack κ τ := (r.change n (·.handOver)).tidyUp key n

/-- A task stops waiting for a lock, which was found under a key. -/
def withdraw [DecidableEq τ] (r : Rack κ τ) (key : κ) (n : Nat) (task : τ) : Rack κ τ :=
  (r.change n (·.forget task)).tidyUp key n

/-- Whether a task holds a lock. -/
def holds [DecidableEq τ] (r : Rack κ τ) (n : Nat) (task : τ) : Bool :=
  (r.locks n).holder = some task

/-- What holds of every rack. -/
structure Sound (r : Rack κ τ) : Prop where
  serial : ∀ n, (r.locks n).serial = n
  unused : ∀ n, r.made ≤ n → r.locks n = .unused n
  made : ∀ p ∈ r.index, p.2 < r.made
  keys_nodup : (r.index.map (·.1)).Nodup
  locks_nodup : (r.index.map (·.2)).Nodup

omit [DecidableEq κ] in
theorem sound_empty : Sound ({} : Rack κ τ) where
  serial _ := rfl
  unused _ _ := rfl
  made _ hp := absurd hp List.not_mem_nil
  keys_nodup := List.nodup_nil
  locks_nodup := List.nodup_nil

theorem mem_index_of_find? (h : r.find? key = some n) : (key, n) ∈ r.index := by
  rcases Option.map_eq_some_iff.1 h with ⟨p, hp, rfl⟩
  have hkey : p.1 = key := by simpa using List.find?_some hp
  exact hkey ▸ List.mem_of_find?_eq_some hp

theorem not_mem_keys_of_find? (h : r.find? key = none) : key ∉ r.index.map (·.1) := by
  intro hmem
  rcases List.mem_map.1 hmem with ⟨p, hp, hkey⟩
  simp only [find?, Option.map_eq_none_iff, List.find?_eq_none] at h
  exact h p hp (by simpa using hkey)

/-- A lock belongs to one key, and a key has one lock. -/
theorem Sound.lock_iff (hr : r.Sound) (h : r.find? key = some n) {p : κ × Nat} (hp : p ∈ r.index) :
    p.2 = n ↔ p.1 = key := by
  have hmem := mem_index_of_find? h
  constructor
  · intro hn
    rw [List.inj_on_of_nodup_map hr.locks_nodup hp hmem hn]
  · intro hkey
    rw [List.inj_on_of_nodup_map hr.keys_nodup hp hmem hkey]

omit [DecidableEq κ] in
theorem Sound.change (hr : r.Sound) (hn : n < r.made) {f : Entry τ → Entry τ}
    (hf : ∀ e, (f e).serial = e.serial) : (r.change n f).Sound where
  serial m := by
    by_cases hm : m = n
    · simp [Rack.change, hm, hf, hr.serial]
    · simp [Rack.change, hm, hr.serial]
  unused m hm := by
    have hne : m ≠ n := by
      rintro rfl
      exact Nat.lt_irrefl _ (Nat.lt_of_lt_of_le hn hm)
    simpa [Rack.change, hne] using hr.unused m hm
  made := hr.made
  keys_nodup := hr.keys_nodup
  locks_nodup := hr.locks_nodup

theorem Sound.make (hr : r.Sound) (h : r.find? key = none) : (r.make key).Sound where
  serial := hr.serial
  unused m hm := hr.unused m (Nat.le_of_succ_le hm)
  made p hp := by
    rcases List.mem_append.1 hp with hold | hnew
    · exact Nat.lt_succ_of_lt (hr.made p hold)
    · rw [List.mem_singleton.1 hnew]
      exact Nat.lt_succ_self _
  keys_nodup := by
    have hnew := not_mem_keys_of_find? h
    simp only [Rack.make, List.map_append, List.map_cons, List.map_nil]
    rw [List.nodup_append']
    exact ⟨hr.keys_nodup, List.nodup_singleton _, by simpa using hnew⟩
  locks_nodup := by
    have hnew : r.made ∉ r.index.map (·.2) := by
      intro hmem
      rcases List.mem_map.1 hmem with ⟨p, hp, heq⟩
      exact Nat.lt_irrefl _ (heq ▸ hr.made p hp)
    simp only [Rack.make, List.map_append, List.map_cons, List.map_nil]
    rw [List.nodup_append']
    exact ⟨hr.locks_nodup, List.nodup_singleton _, by simpa using hnew⟩

theorem Sound.tidyUp (hr : r.Sound) (key : κ) (n : Nat) : (r.tidyUp key n).Sound := by
  unfold Rack.tidyUp
  split
  · exact ⟨hr.serial, hr.unused, fun p hp => hr.made p (List.mem_of_mem_filter hp),
      hr.keys_nodup.sublist (List.filter_sublist.map _),
      hr.locks_nodup.sublist (List.filter_sublist.map _)⟩
  · exact hr

theorem Sound.find?_lt (hr : r.Sound) (h : r.find? key = some n) : n < r.made :=
  hr.made (key, n) (mem_index_of_find? h)

theorem Sound.enter (hr : r.Sound) (key : κ) (task : τ) : (r.enter key task).1.Sound := by
  unfold Rack.enter
  cases hfind : r.find? key with
  | some n => exact hr.change (hr.find?_lt hfind) fun e => e.serial_join task
  | none => exact (hr.make hfind).change (Nat.lt_succ_self _) fun e => e.serial_join task

theorem Sound.leave (hr : r.Sound) (h : r.find? key = some n) : (r.leave key n).Sound :=
  (hr.change (hr.find?_lt h) fun e => e.serial_handOver).tidyUp key n

theorem Sound.withdraw [DecidableEq τ] (hr : r.Sound) (h : r.find? key = some n) (task : τ) :
    (r.withdraw key n task).Sound :=
  (hr.change (hr.find?_lt h) fun e => e.serial_forget task).tidyUp key n

/-! ## The registry of a rack -/

/-- The locks in use, by key. -/
def registry (r : Rack κ τ) : Registry κ τ where
  entries := r.index.map fun p => (p.1, r.locks p.2)
  issued := r.made

theorem find?_registry (r : Rack κ τ) (key : κ) :
    r.registry.find? key = (r.find? key).map r.locks := by
  simp only [Registry.find?, registry, find?, List.find?_map, Option.map_map]
  rfl

theorem Sound.serial?_registry (hr : r.Sound) (key : κ) : r.registry.serial? key = r.find? key := by
  unfold Registry.serial?
  rw [find?_registry]
  cases r.find? key with
  | none => rfl
  | some n => exact congrArg some (hr.serial n)

theorem holds_registry [DecidableEq τ] (h : r.find? key = some n) (task : τ) :
    r.registry.holds key task = r.holds n task := by
  simp [Registry.holds, Registry.holder?, find?_registry, h, holds]

/-- To change the lock of a key is to replace the entry of the key. -/
theorem Sound.registry_change (hr : r.Sound) (h : r.find? key = some n) (f : Entry τ → Entry τ) :
    (r.change n f).registry = r.registry.replace key (f (r.locks n)) := by
  simp only [registry, Registry.replace, Rack.change, List.map_map]
  congr 1
  refine List.map_congr_left fun p hp => ?_
  by_cases hkey : p.1 = key
  · simp [(hr.lock_iff h hp).2 hkey, hkey]
  · have hne : p.2 ≠ n := fun hn => hkey ((hr.lock_iff h hp).1 hn)
    simp [hne, hkey]

theorem Sound.registry_tidyUp (hr : r.Sound) (h : r.find? key = some n) (f : Entry τ → Entry τ) :
    ((r.change n f).tidyUp key n).registry = r.registry.keep key (f (r.locks n)) := by
  have hlock : (r.change n f).locks n = f (r.locks n) := Function.update_self ..
  unfold Rack.tidyUp Registry.keep
  rw [hlock]
  split
  · have hothers : ∀ p ∈ r.index.filter (fun p => p.1 ≠ key), p.2 ≠ n := by
      intro p hp hn
      rcases List.mem_filter.1 hp with ⟨hmem, hne⟩
      exact (of_decide_eq_true hne) ((hr.lock_iff h hmem).1 hn)
    simp only [registry, Registry.drop, List.filter_map, Rack.change]
    congr 1
    refine List.map_congr_left fun p hp => ?_
    rw [Function.update_of_ne (hothers p hp)]
  · exact hr.registry_change h f

theorem Sound.registry_enter (hr : r.Sound) (key : κ) (task : τ) :
    (r.enter key task).1.registry = r.registry.enter key task := by
  unfold Rack.enter Registry.enter
  rw [find?_registry]
  cases hfind : r.find? key with
  | some n =>
    simp only [Option.map_some]
    exact hr.registry_change hfind _
  | none =>
    have holdLocks : ∀ p ∈ r.index, p.2 ≠ r.made := fun p hp => Nat.ne_of_lt (hr.made p hp)
    have hnew : r.locks r.made = .unused r.made := hr.unused r.made (Nat.le_refl _)
    simp only [Option.map_none, registry, Rack.change, Rack.make, List.map_append, List.map_cons,
      List.map_nil, Function.update_self, hnew, Entry.join_unused]
    congr 2
    refine List.map_congr_left fun p hp => ?_
    rw [Function.update_of_ne (holdLocks p hp)]

theorem Sound.find?_enter (hr : r.Sound) (key : κ) (task : τ) :
    (r.enter key task).1.find? key = some (r.enter key task).2 := by
  rw [← (hr.enter key task).serial?_registry, hr.registry_enter, Registry.serial?_enter, if_pos rfl,
    hr.serial?_registry]
  unfold Rack.enter
  cases r.find? key <;> rfl

theorem Sound.registry_leave (hr : r.Sound) (h : r.find? key = some n) :
    (r.leave key n).registry = r.registry.leave key := by
  have hfind : r.registry.find? key = some (r.locks n) := by rw [find?_registry, h, Option.map_some]
  simp only [Registry.leave, hfind]
  exact hr.registry_tidyUp h _

theorem Sound.registry_withdraw [DecidableEq τ] (hr : r.Sound) (h : r.find? key = some n) (task : τ) :
    (r.withdraw key n task).registry = r.registry.withdraw key task := by
  have hfind : r.registry.find? key = some (r.locks n) := by rw [find?_registry, h, Option.map_some]
  simp only [Registry.withdraw, hfind]
  exact hr.registry_tidyUp h _

end Rack

end PuzzleContest.Lock
