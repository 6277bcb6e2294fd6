import Mathlib.Data.List.Dedup
import PuzzleContest.Proofs.Command
import PuzzleContest.Proofs.Rack

/-!
# Keyed locks, where every task keeps its lock

Main results:

- `Lobby`: every visit keeps the number of the lock that it has found, and goes to this lock whenever it
  goes inside, leaves or gives up.
- `Lobby.Sound.hall_run`: the hall that a lobby stands for makes the same moves.
- `Lobby.Tidy`, `Lobby.Continues`, `Lobby.tidy_run`: what the index and the counters say, whatever
  happens.
-/

namespace PuzzleContest.Lock

variable {κ τ : Type}

/-- The clock, all locks, and all visits in the order of their arrival. -/
structure Lobby (κ τ : Type) where
  now : Int := 0
  rack : Rack κ τ := {}
  visits : List (Visit κ τ) := []

namespace Lobby

variable [DecidableEq κ] [DecidableEq τ] {b b' b'' : Lobby κ τ} {v u : Visit κ τ} {task : τ} {key : κ}

/-- The hall that a lobby stands for. -/
def hall (b : Lobby κ τ) : Hall κ τ := ⟨b.now, b.rack.registry, b.visits⟩

/-- The visit of a task. -/
def visit? (b : Lobby κ τ) (task : τ) : Option (Visit κ τ) := b.visits.find? fun v => v.task = task

/-- Change the visits of a task. -/
def update (b : Lobby κ τ) (task : τ) (f : Visit κ τ → Visit κ τ) : Lobby κ τ :=
  { b with visits := b.visits.map fun v => if v.task = task then f v else v }

/-- A new visit, which keeps the lock that its task has found. -/
def come (b : Lobby κ τ) (task : τ) (key : κ) (timeout : Option Int) : Lobby κ τ :=
  let found := b.rack.enter key task
  let v : Visit κ τ := {
    task, key
    serial := found.2
    arrived := b.now
    deadline := timeout.map fun t => b.now + max t 0
    wish := none
    stage := .waiting }
  { b with rack := found.1, visits := b.visits ++ [v] }

/-- A visit ends, and its task has left or given up its lock. -/
def finish (b : Lobby κ τ) (rack : Rack κ τ) (task : τ) (outcome : Outcome) : Lobby κ τ :=
  { b with rack }.update task fun v => { v with stage := .ended outcome b.now }

/-- The lobby after one move.  A move that cannot be made changes nothing. -/
def step (b : Lobby κ τ) : Hall.Move κ τ → Lobby κ τ
  | .come task key timeout => if (b.visit? task).isSome then b else b.come task key timeout
  | .goIn task =>
    match b.visit? task with
    | some v =>
      if v.stage.isWaiting && b.rack.holds v.serial task then
        b.update task fun v => { v with stage := .inside b.now }
      else b
    | none => b
  | .leave task outcome =>
    match b.visit? task with
    | some v => if v.isInside then b.finish (b.rack.leave v.key v.serial) v.task outcome else b
    | none => b
  | .quit task outcome =>
    match b.visit? task with
    | some v =>
      if v.stage.isWaiting then
        if b.rack.holds v.serial task then
          b.finish (b.rack.leave v.key v.serial) v.task outcome
        else b.finish (b.rack.withdraw v.key v.serial v.task) v.task outcome
      else b
    | none => b
  | .tell task exit =>
    match b.visit? task with
    | some v =>
      if v.stage.isWaiting then
        b.update task fun v =>
          { v with wish := if v.wish = some .failing then some .failing else some exit }
      else b
    | none => b
  | .clock now => { b with now := now }

/-- The lobby after a list of moves. -/
def run (b : Lobby κ τ) (moves : List (Hall.Move κ τ)) : Lobby κ τ := moves.foldl step b

theorem run_append (b : Lobby κ τ) (moves more : List (Hall.Move κ τ)) :
    b.run (moves ++ more) = (b.run moves).run more := List.foldl_append

omit [DecidableEq κ] in
theorem mem_of_visit? (h : b.visit? task = some v) : v ∈ b.visits ∧ v.task = task :=
  ⟨List.mem_of_find?_eq_some h, by simpa using List.find?_some h⟩

/-! ## Agreement with halls -/

/-- What holds between the moves of a lobby. -/
structure Sound (b : Lobby κ τ) : Prop where
  rack : b.rack.Sound
  hall : b.hall.Sound

omit [DecidableEq τ] in
theorem sound_empty : Sound ({} : Lobby κ τ) := ⟨Rack.sound_empty, Hall.sound_empty⟩

omit [DecidableEq τ] in
/-- Whoever is present finds its lock under its key. -/
theorem Sound.find?_of_mem (hb : b.Sound) (hv : v ∈ b.visits) (hpresent : v.isPresent = true) :
    b.rack.find? v.key = some v.serial :=
  (hb.rack.serial?_registry v.key).symm.trans (hb.hall.serial v hv hpresent)

theorem Sound.holds_eq (hb : b.Sound) (hv : v ∈ b.visits) (hpresent : v.isPresent = true) :
    b.rack.holds v.serial v.task = b.hall.locks.holds v.key v.task :=
  (Rack.holds_registry (hb.find?_of_mem hv hpresent) v.task).symm

omit [DecidableEq τ] in
theorem Sound.hall_come (hb : b.Sound) (task : τ) (key : κ) (timeout : Option Int) :
    (b.come task key timeout).hall = b.hall.come task key timeout := by
  have hlocks := hb.rack.registry_enter key task
  have hserial : ((b.rack.registry.enter key task).serial? key).getD 0 = (b.rack.enter key task).2 := by
    rw [← hlocks, (hb.rack.enter key task).serial?_registry, hb.rack.find?_enter]
    rfl
  simp only [Lobby.hall, come, Hall.come, hlocks, hserial]

theorem Sound.hall_leave (hb : b.Sound) (hv : v ∈ b.visits) (hpresent : v.isPresent = true)
    (outcome : Outcome) :
    (b.finish (b.rack.leave v.key v.serial) v.task outcome).hall = b.hall.depart v outcome := by
  have hlocks := hb.rack.registry_leave (hb.find?_of_mem hv hpresent)
  simp only [Lobby.hall, finish, update, Hall.depart, Hall.finish, Hall.update, hlocks]

theorem Sound.hall_withdraw (hb : b.Sound) (hv : v ∈ b.visits) (hpresent : v.isPresent = true)
    (outcome : Outcome) :
    (b.finish (b.rack.withdraw v.key v.serial v.task) v.task outcome).hall =
      b.hall.giveUp v outcome := by
  have hlocks := hb.rack.registry_withdraw (hb.find?_of_mem hv hpresent) v.task
  simp only [Lobby.hall, finish, update, Hall.giveUp, Hall.finish, Hall.update, hlocks]

/-- A move does the same to a lobby and to its hall, and it leaves a sound rack. -/
theorem Sound.hall_step (hb : b.Sound) (move : Hall.Move κ τ) :
    (b.step move).hall = b.hall.step move ∧ (b.step move).rack.Sound := by
  have hvisit? : ∀ task, b.hall.visit? task = b.visit? task := fun _ => rfl
  cases move with
  | come task key timeout =>
    simp only [step, Hall.step, hvisit?]
    split
    · exact ⟨rfl, hb.rack⟩
    · exact ⟨hb.hall_come task key timeout, hb.rack.enter key task⟩
  | goIn task =>
    cases hvisit : b.visit? task with
    | none =>
      simp only [step, Hall.step, hvisit?, hvisit]
      exact ⟨trivial, hb.rack⟩
    | some v =>
      rcases mem_of_visit? hvisit with ⟨hv, rfl⟩
      simp only [step, Hall.step, hvisit?, hvisit]
      by_cases hwaits : v.stage.isWaiting = true
      · rw [hb.holds_eq hv (Visit.isPresent_of_isWaiting hwaits)]
        split
        · exact ⟨rfl, hb.rack⟩
        · exact ⟨rfl, hb.rack⟩
      · simp only [hwaits, Bool.false_and, Bool.false_eq_true]
        exact ⟨rfl, hb.rack⟩
  | leave task outcome =>
    cases hvisit : b.visit? task with
    | none =>
      simp only [step, Hall.step, hvisit?, hvisit]
      exact ⟨trivial, hb.rack⟩
    | some v =>
      rcases mem_of_visit? hvisit with ⟨hv, rfl⟩
      simp only [step, Hall.step, hvisit?, hvisit]
      split
      · rename_i hinside
        have hpresent := Visit.isPresent_of_isInside hinside
        exact ⟨hb.hall_leave hv hpresent outcome, hb.rack.leave (hb.find?_of_mem hv hpresent)⟩
      · exact ⟨rfl, hb.rack⟩
  | quit task outcome =>
    cases hvisit : b.visit? task with
    | none =>
      simp only [step, Hall.step, hvisit?, hvisit]
      exact ⟨trivial, hb.rack⟩
    | some v =>
      rcases mem_of_visit? hvisit with ⟨hv, rfl⟩
      simp only [step, Hall.step, hvisit?, hvisit]
      split
      · rename_i hwaits
        have hpresent := Visit.isPresent_of_isWaiting hwaits
        have hfind := hb.find?_of_mem hv hpresent
        rw [hb.holds_eq hv hpresent]
        split
        · exact ⟨hb.hall_leave hv hpresent outcome, hb.rack.leave hfind⟩
        · exact ⟨hb.hall_withdraw hv hpresent outcome, hb.rack.withdraw hfind v.task⟩
      · exact ⟨rfl, hb.rack⟩
  | tell task exit =>
    simp only [step, Hall.step, hvisit?]
    cases b.visit? task with
    | none => exact ⟨rfl, hb.rack⟩
    | some v =>
      simp only
      split <;> exact ⟨rfl, hb.rack⟩
  | clock now => exact ⟨rfl, hb.rack⟩

theorem Sound.step (hb : b.Sound) (move : Hall.Move κ τ) : (b.step move).Sound := by
  rcases hb.hall_step move with ⟨hhall, hrack⟩
  exact ⟨hrack, hhall ▸ hb.hall.step move⟩

theorem Sound.run (hb : b.Sound) (moves : List (Hall.Move κ τ)) : (b.run moves).Sound := by
  induction moves generalizing b with
  | nil => exact hb
  | cons move moves ih => exact ih (hb.step move)

/-- The hall that a lobby stands for makes the same moves. -/
theorem Sound.hall_run (hb : b.Sound) (moves : List (Hall.Move κ τ)) :
    (b.run moves).hall = b.hall.run moves := by
  induction moves generalizing b with
  | nil => rfl
  | cons move moves ih =>
    have hrest := ih (hb.step move)
    rw [(hb.hall_step move).1] at hrest
    exact hrest

/-! ## What the index and the counters say -/

/-- The visits that hold or await the lock of a key, in order of arrival. -/
def present (b : Lobby κ τ) (key : κ) : List (Visit κ τ) :=
  b.visits.filter fun v => v.isPresent && decide (v.key = key)

omit [DecidableEq τ] in
theorem mem_present : v ∈ b.present key ↔ v ∈ b.visits ∧ v.isPresent = true ∧ v.key = key := by
  simp [present]

/-- What the index and the counters represent at every moment. -/
structure Tidy (b : Lobby κ τ) : Prop where
  /-- At most one task is inside the block of a key. -/
  alone : ∀ v ∈ b.visits, ∀ u ∈ b.visits, v.isInside = true → u.isInside = true → v.key = u.key → v = u
  /-- Whoever is inside holds the lock that it has found. -/
  held : ∀ v ∈ b.visits, v.isInside = true → b.rack.holds v.serial v.task = true
  /-- The counter of a lock is the number of tasks that hold it or wait for it. -/
  users_eq : ∀ key n, b.rack.find? key = some n → (b.rack.locks n).users = (b.present key).length
  /-- The holder of a lock and those in its line are these tasks, in order of arrival. -/
  line_eq : ∀ key n, b.rack.find? key = some n →
    (b.rack.locks n).holder.toList ++ (b.rack.locks n).waiters = (b.present key).map (·.task)
  /-- A key has a lock if and only if there are such tasks. -/
  isSome_iff : ∀ key, (b.rack.find? key).isSome = true ↔ 0 < (b.present key).length
  /-- The size is the number of different keys in use. -/
  size_eq : b.rack.size = ((b.visits.filter (·.isPresent)).map (·.key)).dedup.length
  /-- Once all tasks have ended no key has a lock. -/
  size_eq_zero : (∀ v ∈ b.visits, v.isPresent = false) → b.rack.size = 0
  /-- Whoever holds or awaits a lock has the one that its key has. -/
  same : ∀ v ∈ b.visits, v.isPresent = true → b.rack.find? v.key = some v.serial
  /-- Different keys have different locks. -/
  apart : ∀ key key' n, b.rack.find? key = some n → b.rack.find? key' = some n → key = key'

omit [DecidableEq τ] in
theorem Sound.line_eq (hb : b.Sound) {n : Nat} (h : b.rack.find? key = some n) :
    (b.rack.locks n).holder.toList ++ (b.rack.locks n).waiters = (b.present key).map (·.task) := by
  have hfind : b.rack.registry.find? key = some (b.rack.locks n) := by
    rw [Rack.find?_registry, h, Option.map_some]
  exact (Registry.line_of_find? hfind).symm.trans (hb.hall.line_eq key)

omit [DecidableEq τ] in
theorem Sound.users_eq (hb : b.Sound) {n : Nat} (h : b.rack.find? key = some n) :
    (b.rack.locks n).users = (b.present key).length := by
  have hfind : b.rack.registry.find? key = some (b.rack.locks n) := by
    rw [Rack.find?_registry, h, Option.map_some]
  rw [hb.hall.orderly.sound.users_eq_length hfind]
  exact (congrArg List.length (hb.hall.line_eq key)).trans (List.length_map _)

omit [DecidableEq τ] in
theorem Sound.find?_eq_none_iff (hb : b.Sound) (key : κ) :
    b.rack.find? key = none ↔ b.present key = [] := by
  have hnone := hb.hall.orderly.sound.line_eq_nil_iff key
  rw [hb.hall.line_eq key, List.map_eq_nil_iff] at hnone
  change b.present key = [] ↔ b.rack.registry.find? key = none at hnone
  rw [hnone, Rack.find?_registry, Option.map_eq_none_iff]

omit [DecidableEq τ] in
theorem Sound.size_eq (hb : b.Sound) :
    b.rack.size = ((b.visits.filter (·.isPresent)).map (·.key)).dedup.length := by
  have hkeys : (b.rack.index.map (·.1)).Perm ((b.visits.filter (·.isPresent)).map (·.key)).dedup := by
    rw [List.perm_ext_iff_of_nodup hb.rack.keys_nodup (List.nodup_dedup _)]
    intro key
    rw [List.mem_dedup]
    constructor
    · intro hkey
      have hsome : b.rack.find? key ≠ none := fun hnone => Rack.not_mem_keys_of_find? hnone hkey
      rw [ne_eq, hb.find?_eq_none_iff] at hsome
      rcases List.exists_mem_of_ne_nil _ hsome with ⟨v, hv⟩
      rcases mem_present.1 hv with ⟨hmem, hpresent, rfl⟩
      exact List.mem_map_of_mem (List.mem_filter.2 ⟨hmem, hpresent⟩)
    · intro hkey
      rcases List.mem_map.1 hkey with ⟨v, hv, rfl⟩
      rcases List.mem_filter.1 hv with ⟨hmem, hpresent⟩
      exact List.mem_map_of_mem (Rack.mem_index_of_find? (hb.find?_of_mem hmem hpresent))
  exact (List.length_map _).symm.trans hkeys.length_eq

theorem Sound.tidy (hb : b.Sound) : b.Tidy where
  alone v hv u hu hinside hinside' hkey := by
    have hheld := hb.hall.inside v hv hinside
    rw [hkey, hb.hall.inside u hu hinside'] at hheld
    exact hb.hall.eq_of_task hv hu (Option.some.inj hheld).symm
  held v hv hinside := by
    rw [hb.holds_eq hv (Visit.isPresent_of_isInside hinside), Hall.holds_iff]
    exact hb.hall.inside v hv hinside
  users_eq key n h := hb.users_eq h
  line_eq key n h := hb.line_eq h
  isSome_iff key := by
    rw [List.length_pos_iff, ne_eq, ← hb.find?_eq_none_iff, Option.isSome_iff_ne_none]
  size_eq := hb.size_eq
  size_eq_zero hended := by
    have hnone : b.visits.filter (·.isPresent) = [] := by
      rw [List.filter_eq_nil_iff]
      intro v hv
      simp [hended v hv]
    rw [hb.size_eq, hnone]
    rfl
  same v hv hpresent := hb.find?_of_mem hv hpresent
  apart key key' n h h' :=
    ((hb.rack.lock_iff h (Rack.mem_index_of_find? h')).1 rfl).symm

/-! ## What lasts -/

/-- What lasts from one moment to a later one. -/
structure Continues (b b' : Lobby κ τ) : Prop where
  /-- Every visit stays the visit of its task to its key, with its lock, and none that has ended is taken
  up again. -/
  goes_on : ∀ v ∈ b.visits, ∃ v' ∈ b'.visits, v'.ticket = v.ticket ∧
    (v'.isPresent = true → v.isPresent = true)
  /-- As long as a task holds or awaits a lock, the key has this lock. -/
  kept : ∀ v ∈ b.visits, ∀ v' ∈ b'.visits, v'.task = v.task → v'.isPresent = true →
    b.rack.find? v.key = some v.serial ∧ b'.rack.find? v.key = some v.serial

/-- Every visit of one list goes on in the other. -/
def GoesOn (visits visits' : List (Visit κ τ)) : Prop :=
  ∀ v ∈ visits, ∃ v' ∈ visits', v'.ticket = v.ticket ∧ (v'.isPresent = true → v.isPresent = true)

omit [DecidableEq κ] [DecidableEq τ] in
theorem GoesOn.refl (visits : List (Visit κ τ)) : GoesOn visits visits :=
  fun v hv => ⟨v, hv, rfl, id⟩

omit [DecidableEq κ] [DecidableEq τ] in
theorem GoesOn.trans {l l' l'' : List (Visit κ τ)} (h : GoesOn l l') (h' : GoesOn l' l'') :
    GoesOn l l'' := by
  intro v hv
  rcases h v hv with ⟨v', hv', hticket, hpresent⟩
  rcases h' v' hv' with ⟨v'', hv'', hticket', hpresent'⟩
  exact ⟨v'', hv'', hticket'.trans hticket, hpresent ∘ hpresent'⟩

omit [DecidableEq κ] in
theorem goesOn_update {f : Visit κ τ → Visit κ τ} (hticket : ∀ v, (f v).ticket = v.ticket)
    (hpresent : ∀ v ∈ b.visits, v.task = task → (f v).isPresent = true → v.isPresent = true) :
    GoesOn b.visits (b.update task f).visits := by
  intro v hv
  by_cases ht : v.task = task
  · exact ⟨f v, List.mem_map.2 ⟨v, hv, if_pos ht⟩, hticket v, hpresent v hv ht⟩
  · exact ⟨v, List.mem_map.2 ⟨v, hv, if_neg ht⟩, rfl, id⟩

omit [DecidableEq κ] in
theorem goesOn_finish (b : Lobby κ τ) (rack : Rack κ τ) (task : τ) (outcome : Outcome) :
    GoesOn b.visits (b.finish rack task outcome).visits :=
  goesOn_update (b := { b with rack }) (fun _ => rfl) fun _ _ _ hp => absurd hp (by simp [Visit.isPresent])

theorem Sound.goesOn_step (hb : b.Sound) (move : Hall.Move κ τ) :
    GoesOn b.visits (b.step move).visits := by
  cases move with
  | come task key timeout =>
    simp only [Lobby.step]
    split
    · exact .refl _
    · exact fun v hv => ⟨v, List.mem_append_left _ hv, rfl, id⟩
  | goIn task =>
    simp only [Lobby.step]
    split
    · rename_i v hvisit
      rcases mem_of_visit? hvisit with ⟨hv, rfl⟩
      split
      · rename_i hmay
        rw [Bool.and_eq_true] at hmay
        refine goesOn_update (fun _ => rfl) fun u hu ht _ => ?_
        rw [hb.hall.eq_of_task hu hv ht]
        exact Visit.isPresent_of_isWaiting hmay.1
      · exact .refl _
    · exact .refl _
  | leave task outcome =>
    simp only [Lobby.step]
    split
    · split
      · exact goesOn_finish b _ _ _
      · exact .refl _
    · exact .refl _
  | quit task outcome =>
    simp only [Lobby.step]
    split
    · split
      · split
        · exact goesOn_finish b _ _ _
        · exact goesOn_finish b _ _ _
      · exact .refl _
    · exact .refl _
  | tell task exit =>
    simp only [Lobby.step]
    split
    · split
      · exact goesOn_update (fun _ => rfl) fun _ _ _ hp => hp
      · exact .refl _
    · exact .refl _
  | clock now => exact .refl _

theorem Sound.goesOn_run (hb : b.Sound) (moves : List (Hall.Move κ τ)) :
    GoesOn b.visits (b.run moves).visits := by
  induction moves generalizing b with
  | nil => exact .refl _
  | cons move moves ih => exact (hb.goesOn_step move).trans (ih (hb.step move))

theorem Sound.continues_run (hb : b.Sound) (moves : List (Hall.Move κ τ)) :
    b.Continues (b.run moves) where
  goes_on := hb.goesOn_run moves
  kept v hv v' hv' htask hpresent := by
    have hlater := hb.run moves
    rcases hb.goesOn_run moves v hv with ⟨w, hw, hticket, hback⟩
    have heq : v' = w :=
      hlater.hall.eq_of_task hv' hw (htask.trans (congrArg Prod.fst hticket).symm)
    have hkey : w.key = v.key := congrArg (fun t => t.2.1) hticket
    have hserial : w.serial = v.serial := congrArg (fun t => t.2.2) hticket
    have hfind := hlater.find?_of_mem hv' hpresent
    rw [heq, hkey, hserial] at hfind
    exact ⟨hb.find?_of_mem hv (hback (heq ▸ hpresent)), hfind⟩

/-- Whatever tasks do and whatever befalls them, at every moment at most one task is inside the block of a
key, the counters and the size are right, and a key keeps its lock as long as somebody uses it.  All
commands of a hall are lists of such moves. -/
theorem tidy_run :
    (∀ moves : List (Hall.Move κ τ), (run {} moves).Tidy) ∧
      (∀ moves more : List (Hall.Move κ τ), (run {} moves).Continues (run {} (moves ++ more))) ∧
      ∀ commands : List (Hall.Command κ τ), ∃ moves,
        (run ({} : Lobby κ τ) moves).hall = Hall.obeyAll {} commands := by
  refine ⟨fun moves => (sound_empty.run moves).tidy, fun moves more => ?_, fun commands => ?_⟩
  · rw [run_append]
    exact (sound_empty.run moves).continues_run more
  · rcases Hall.sound_empty.leads_obeyAll Hall.settled_empty commands with ⟨moves, hmoves⟩
    exact ⟨moves, (sound_empty.hall_run moves).trans hmoves⟩

end Lobby

end PuzzleContest.Lock
