import PuzzleContest.Lock.Hall
import PuzzleContest.Proofs.Line

/-!
# Who is in the hall

Tasks come to keyed locks, wait, go inside and leave, one small move after another.  Between the moment
at which a lock is handed to a task and the moment at which this task goes inside anything else may
happen: others come, and the task itself may be cancelled or run out of time.

Main results:

- `Hall.Move`, `Hall.run`: the small moves.
- `Hall.Sound`: the line at each lock is those who are present for its key, in order of arrival.
- `Hall.Sound.remove`: whoever gets out of the line leaves a sound hall behind.
- `Hall.Sound.step`, `Hall.Sound.run`: every move keeps a hall sound.
-/

namespace PuzzleContest.Lock

variable {κ τ : Type}

namespace Visit

/-- Whether a visit holds or awaits its lock. -/
def isPresent (v : Visit κ τ) : Bool :=
  match v.stage with
  | .ended _ _ => false
  | _ => true

/-- Whether a visit is inside its block. -/
def isInside (v : Visit κ τ) : Bool :=
  match v.stage with
  | .inside _ => true
  | _ => false

/-- What stays the same of a visit: its task, its key and the lock that it asked for. -/
def ticket (v : Visit κ τ) : τ × κ × Nat := (v.task, v.key, v.serial)

variable {v : Visit κ τ}

theorem isPresent_of_isInside (h : v.isInside = true) : v.isPresent = true := by
  unfold isInside at h
  unfold isPresent
  split at h
  · rename_i heq
    rw [heq]
  · exact absurd h (by simp)

theorem isPresent_of_isWaiting (h : v.stage.isWaiting = true) : v.isPresent = true := by
  unfold isPresent
  cases hstage : v.stage with
  | ended outcome time => exact absurd h (by simp [hstage, Stage.isWaiting])
  | waiting | inside => rfl

end Visit

namespace Hall

variable [DecidableEq κ] [DecidableEq τ] {h : Hall κ τ} {v : Visit κ τ} {task : τ} {key : κ}

/-- Those who hold or await the lock of a key, in order of arrival. -/
def present (h : Hall κ τ) (key : κ) : List (Visit κ τ) :=
  h.visits.filter fun v => v.isPresent && decide (v.key = key)

/-! ## Moves -/

/-- A new visit: a task asks for the lock of a key. -/
def come (h : Hall κ τ) (task : τ) (key : κ) (timeout : Option Int) : Hall κ τ :=
  let locks := h.locks.enter key task
  let v : Visit κ τ := {
    task, key
    serial := (locks.serial? key).getD 0
    arrived := h.now
    deadline := timeout.map fun t => h.now + max t 0
    wish := none
    stage := .waiting }
  { h with locks, visits := h.visits ++ [v] }

/-- A task goes inside. -/
def goIn (h : Hall κ τ) (task : τ) : Hall κ τ :=
  h.update task fun v => { v with stage := .inside h.now }

/-- A task that is not yet inside is told how to leave. -/
def tell (h : Hall κ τ) (task : τ) (exit : Exit) : Hall κ τ :=
  h.update task fun v =>
    { v with wish := if v.wish = some .failing then some .failing else some exit }

/-- What a task does, or what befalls it. -/
inductive Move (κ τ : Type) where
  /-- A new task asks for the lock of a key, for at most some time or without limit. -/
  | come (task : τ) (key : κ) (timeout : Option Int)
  /-- A task that waits goes inside, if the lock has been handed to it. -/
  | goIn (task : τ)
  /-- A task inside leaves: normally, by a failure, or cancelled. -/
  | leave (task : τ) (outcome : Outcome)
  /-- A task that waits is cancelled or its timer fires, perhaps when it has just been handed the lock,
  which then goes to the next in line. -/
  | quit (task : τ) (outcome : Outcome)
  /-- A task that waits is told how to leave. -/
  | tell (task : τ) (exit : Exit)
  /-- Time goes on. -/
  | clock (now : Int)

/-- The hall after one move.  A move that cannot be made changes nothing. -/
def step (h : Hall κ τ) : Move κ τ → Hall κ τ
  | .come task key timeout => if (h.visit? task).isSome then h else h.come task key timeout
  | .goIn task =>
    match h.visit? task with
    | some v => if v.stage.isWaiting && h.locks.holds v.key task then h.goIn task else h
    | none => h
  | .leave task outcome =>
    match h.visit? task with
    | some v => if v.isInside then h.depart v outcome else h
    | none => h
  | .quit task outcome =>
    match h.visit? task with
    | some v =>
      if v.stage.isWaiting then
        if h.locks.holds v.key task then h.depart v outcome else h.giveUp v outcome
      else h
    | none => h
  | .tell task exit =>
    match h.visit? task with
    | some v => if v.stage.isWaiting then h.tell task exit else h
    | none => h
  | .clock now => { h with now := now }

/-- The hall after a list of moves. -/
def run (h : Hall κ τ) (moves : List (Move κ τ)) : Hall κ τ := moves.foldl step h

theorem run_append (h : Hall κ τ) (moves more : List (Move κ τ)) :
    h.run (moves ++ more) = (h.run moves).run more := List.foldl_append

/-! ## Sound halls -/

/-- What holds between the moves of a hall. -/
structure Sound (h : Hall κ τ) : Prop where
  orderly : h.locks.Orderly
  numbered : h.locks.Numbered
  /-- Every task visits once. -/
  tasks_nodup : (h.visits.map (·.task)).Nodup
  /-- The line at a lock is those who are present for its key. -/
  line_eq : ∀ key, h.locks.line key = (h.present key).map (·.task)
  /-- Whoever is inside holds the lock. -/
  inside : ∀ v ∈ h.visits, v.isInside = true → h.locks.holder? v.key = some v.task
  /-- Whoever is present uses the lock that the key has. -/
  serial : ∀ v ∈ h.visits, v.isPresent = true → h.locks.serial? v.key = some v.serial
  /-- The number of every lock that was asked for has been given out. -/
  issued : ∀ v ∈ h.visits, v.serial < h.locks.issued

omit [DecidableEq τ] in
theorem sound_empty : Sound ({} : Hall κ τ) where
  orderly := Registry.orderly_empty
  numbered := Registry.numbered_empty
  tasks_nodup := List.nodup_nil
  line_eq _ := rfl
  inside _ hv := absurd hv List.not_mem_nil
  serial _ hv := absurd hv List.not_mem_nil
  issued _ hv := absurd hv List.not_mem_nil

omit [DecidableEq κ] in
theorem mem_of_visit? (h' : h.visit? task = some v) : v ∈ h.visits ∧ v.task = task :=
  ⟨List.mem_of_find?_eq_some h', by simpa using List.find?_some h'⟩

omit [DecidableEq τ] in
theorem Sound.eq_of_task (hh : h.Sound) {u : Visit κ τ} (hv : v ∈ h.visits) (hu : u ∈ h.visits)
    (heq : v.task = u.task) : v = u :=
  List.inj_on_of_nodup_map hh.tasks_nodup hv hu heq

theorem Sound.visit?_of_mem (hh : h.Sound) (hv : v ∈ h.visits) : h.visit? v.task = some v := by
  cases hfind : h.visit? v.task with
  | none =>
    simp only [visit?, List.find?_eq_none] at hfind
    exact absurd (decide_eq_true rfl) (hfind v hv)
  | some u =>
    rcases mem_of_visit? hfind with ⟨hu, htask⟩
    rw [hh.eq_of_task hu hv htask]

omit [DecidableEq τ] in
theorem mem_present {key : κ} : v ∈ h.present key ↔ v ∈ h.visits ∧ v.isPresent = true ∧ v.key = key := by
  simp [present]

omit [DecidableEq τ] in
/-- Whoever is present stands in the line of its key. -/
theorem Sound.uses (hh : h.Sound) (hv : v ∈ h.visits) (hpresent : v.isPresent = true) :
    h.locks.Uses v.key v.task := by
  rw [← Registry.mem_line_iff, hh.line_eq]
  exact List.mem_map_of_mem (mem_present.2 ⟨hv, hpresent, rfl⟩)

/-- A new task may ask for a lock. -/
theorem Sound.come (hh : h.Sound) (hnew : h.visit? task = none) (key : κ) (timeout : Option Int) :
    (h.come task key timeout).Sound := by
  have hfresh : ∀ v ∈ h.visits, v.task ≠ task := by
    intro v hv
    simp only [visit?, List.find?_eq_none, decide_eq_true_eq] at hnew
    exact hnew v hv
  have hserial := Registry.serial?_enter h.locks key task
  have hissued := Registry.issued_le_issued_enter h.locks key task
  have hnumbered := hh.numbered.enter key task
  have hown : (h.locks.enter key task).serial? key =
      some (((h.locks.enter key task).serial? key).getD 0) := by
    rw [hserial, if_pos rfl]
    rfl
  refine ⟨hh.orderly.enter key task, hnumbered, ?_, fun k => ?_, ?_, ?_, ?_⟩
  · simp only [Hall.come, List.map_append, List.map_cons, List.map_nil]
    rw [List.nodup_append']
    refine ⟨hh.tasks_nodup, List.nodup_singleton _, ?_⟩
    intro t ht ht'
    rcases List.mem_map.1 ht with ⟨v, hv, rfl⟩
    exact hfresh v hv (by simpa using ht')
  · have hline := hh.orderly.sound.line_enter key task k
    change (h.locks.enter key task).line k = _
    rw [hline, hh.line_eq key, hh.line_eq k]
    by_cases hk : k = key
    · simp [present, Hall.come, hk, Visit.isPresent]
    · simp [present, Hall.come, hk, Ne.symm hk]
  · intro v hv hinside
    rcases List.mem_append.1 hv with hold | hnewcomer
    · exact Registry.holder?_enter hh.orderly.sound task (hh.inside v hold hinside)
    · rw [List.mem_singleton.1 hnewcomer] at hinside
      exact absurd hinside (by simp [Visit.isInside])
  · intro v hv hpresent
    rcases List.mem_append.1 hv with hold | hnewcomer
    · have hsame := hh.serial v hold hpresent
      change (h.locks.enter key task).serial? v.key = some v.serial
      rw [hserial]
      by_cases hk : v.key = key
      · rw [if_pos hk, ← hk, hsame]
        rfl
      · rw [if_neg hk, hsame]
    · rw [List.mem_singleton.1 hnewcomer]
      exact hown
  · intro v hv
    rcases List.mem_append.1 hv with hold | hnewcomer
    · exact Nat.lt_of_lt_of_le (hh.issued v hold) hissued
    · rw [List.mem_singleton.1 hnewcomer]
      exact hnumbered.serial_lt key _ hown

omit [DecidableEq κ] in
theorem map_task_update {f : Visit κ τ → Visit κ τ} (hf : ∀ v, (f v).task = v.task) :
    (h.update task f).visits.map (·.task) = h.visits.map (·.task) := by
  simp only [Hall.update, List.map_map]
  refine List.map_congr_left fun v _ => ?_
  by_cases hv : v.task = task <;> simp [hv, hf]

/-- Where nobody comes or goes, and whoever is inside holds the lock, a hall stays sound. -/
theorem Sound.update (hh : h.Sound) {f : Visit κ τ → Visit κ τ}
    (hticket : ∀ v, (f v).ticket = v.ticket)
    (hpresent : ∀ v ∈ h.visits, v.task = task → (f v).isPresent = v.isPresent)
    (hinside : ∀ v ∈ h.visits, v.task = task → (f v).isInside = true →
      h.locks.holder? v.key = some v.task) : (h.update task f).Sound := by
  have htask : ∀ v, (f v).task = v.task := fun v => congrArg Prod.fst (hticket v)
  have hkey : ∀ v, (f v).key = v.key := fun v => congrArg (fun t => t.2.1) (hticket v)
  have hserial : ∀ v, (f v).serial = v.serial := fun v => congrArg (fun t => t.2.2) (hticket v)
  refine ⟨hh.orderly, hh.numbered, ?_, fun k => ?_, ?_, ?_, ?_⟩
  · rw [map_task_update htask]
    exact hh.tasks_nodup
  · have hmap : ((h.update task f).present k).map (·.task) = (h.present k).map (·.task) := by
      simp only [present, Hall.update, List.filter_map, List.map_map]
      rw [List.filter_congr (q := fun v => v.isPresent && decide (v.key = k))]
      · refine List.map_congr_left fun v _ => ?_
        by_cases hv : v.task = task <;> simp [hv, htask]
      · intro v hv
        by_cases ht : v.task = task
        · simp [ht, hkey, hpresent v hv ht]
        · simp [ht]
    rw [hmap]
    exact hh.line_eq k
  · intro u hu hin
    rcases List.mem_map.1 hu with ⟨v, hv, rfl⟩
    by_cases ht : v.task = task
    · rw [if_pos ht] at hin ⊢
      rw [hkey, htask]
      exact hinside v hv ht hin
    · rw [if_neg ht] at hin ⊢
      exact hh.inside v hv hin
  · intro u hu hpres
    rcases List.mem_map.1 hu with ⟨v, hv, rfl⟩
    by_cases ht : v.task = task
    · rw [if_pos ht] at hpres ⊢
      rw [hkey, hserial]
      exact hh.serial v hv ((hpresent v hv ht).symm.trans hpres)
    · rw [if_neg ht] at hpres ⊢
      exact hh.serial v hv hpres
  · intro u hu
    rcases List.mem_map.1 hu with ⟨v, hv, rfl⟩
    by_cases ht : v.task = task
    · rw [if_pos ht, hserial]
      exact hh.issued v hv
    · rw [if_neg ht]
      exact hh.issued v hv

theorem map_task_present_finish (h : Hall κ τ) (task : τ) (outcome : Outcome) (k : κ) :
    ((h.finish task outcome).present k).map (·.task) =
      ((h.present k).map (·.task)).filter (· != task) := by
  simp only [present, finish, Hall.update, List.filter_map, List.map_map, List.filter_filter]
  rw [List.filter_congr (q := fun u => u.task != task && (u.isPresent && decide (u.key = k)))]
  · refine List.map_congr_left fun u _ => ?_
    by_cases ht : u.task = task <;> simp [ht]
  · intro u _
    by_cases ht : u.task = task <;> simp [ht, Visit.isPresent]

/-- The line that somebody has left is those who are still present. -/
theorem Sound.line_sheds (hh : h.Sound) (hv : v ∈ h.visits) {locks : Registry κ τ}
    (hshed : h.locks.Sheds v.key v.task locks) (k : κ) :
    locks.line k = ((h.present k).map (·.task)).filter (· != v.task) := by
  have hnodup : ((h.present k).map (·.task)).Nodup :=
    hh.tasks_nodup.sublist (List.filter_sublist.map _)
  rw [hshed.line_eq k, hh.line_eq k]
  by_cases hk : k = v.key
  · rw [if_pos hk, ← hk, hh.line_eq k, hnodup.erase_eq_filter]
  · rw [if_neg hk, List.filter_eq_self.2]
    intro t ht
    rcases List.mem_map.1 ht with ⟨u, hu, rfl⟩
    rcases mem_present.1 hu with ⟨hu', -, hkey⟩
    have hne : u.task ≠ v.task := by
      intro heq
      exact hk (hkey.symm.trans (congrArg _ (hh.eq_of_task hu' hv heq)))
    simpa using hne

/-- Whoever gets out of the line leaves a sound hall behind. -/
theorem Sound.remove (hh : h.Sound) (hv : v ∈ h.visits) {locks : Registry κ τ}
    (hshed : h.locks.Sheds v.key v.task locks) (outcome : Outcome) :
    (finish { h with locks } v.task outcome).Sound := by
  have hmem : ∀ u ∈ (finish { h with locks } v.task outcome).visits, u.isPresent = true →
      u ∈ h.visits ∧ u.task ≠ v.task := by
    intro u hu hpresent
    rcases List.mem_map.1 hu with ⟨w, hw, rfl⟩
    by_cases ht : w.task = v.task
    · rw [if_pos ht] at hpresent
      exact absurd hpresent (by simp [Visit.isPresent])
    · rw [if_neg ht]
      exact ⟨hw, ht⟩
  have hline : ∀ k, locks.line k =
      ((finish { h with locks } v.task outcome).present k).map (·.task) := fun k =>
    (hh.line_sheds hv hshed k).trans
      (map_task_present_finish { h with locks := locks } v.task outcome k).symm
  refine ⟨hshed.orderly, hshed.numbered hh.numbered, ?_, hline, ?_, ?_, ?_⟩
  · rw [finish, map_task_update]
    · exact hh.tasks_nodup
    · exact fun _ => rfl
  · intro u hu hinside
    rcases hmem u hu (Visit.isPresent_of_isInside hinside) with ⟨hold, hne⟩
    have hhead := hh.inside u hold hinside
    rw [hh.orderly.sound.holder?_eq_head?] at hhead
    rcases List.head?_eq_some_iff.1 hhead with ⟨rest, hrest⟩
    change locks.holder? u.key = some u.task
    rw [hshed.orderly.sound.holder?_eq_head?, hshed.line_eq]
    by_cases hk : u.key = v.key
    · rw [if_pos hk, ← hk, hrest, List.erase_cons_tail (by simpa using hne), List.head?_cons]
    · rw [if_neg hk, hrest, List.head?_cons]
  · intro u hu hpresent
    rcases hmem u hu hpresent with ⟨hold, -⟩
    -- The lock that is left has users, so it is the one that was there.
    have hthere : locks.line u.key ≠ [] := by
      rw [hline]
      exact List.ne_nil_of_mem (List.mem_map_of_mem (mem_present.2 ⟨hu, hpresent, rfl⟩))
    rcases Registry.exists_serial hthere with ⟨n, hn⟩
    have hsame := hshed.serial?_eq _ n hn
    rw [hh.serial u hold hpresent] at hsame
    exact hn.trans hsame.symm
  · intro u hu
    rcases List.mem_map.1 hu with ⟨w, hw, rfl⟩
    have hlt : w.serial < locks.issued := hshed.issued_eq ▸ hh.issued w hw
    by_cases ht : w.task = v.task
    · rw [if_pos ht]
      exact hlt
    · rw [if_neg ht]
      exact hlt

/-- Whoever holds a lock may leave it. -/
theorem Sound.depart (hh : h.Sound) (hv : v ∈ h.visits)
    (hholder : h.locks.holder? v.key = some v.task) (outcome : Outcome) :
    (h.depart v outcome).Sound :=
  hh.remove hv (hh.orderly.sheds_leave hholder) outcome

/-- Whoever waits for a lock may give up. -/
theorem Sound.giveUp (hh : h.Sound) (hv : v ∈ h.visits) (hwaits : v.stage.isWaiting = true)
    (hnot : h.locks.holder? v.key ≠ some v.task) (outcome : Outcome) :
    (h.giveUp v outcome).Sound :=
  hh.remove hv
    (hh.orderly.sheds_withdraw (hh.uses hv (Visit.isPresent_of_isWaiting hwaits)) hnot) outcome

/-- Whoever has been handed the lock may go inside. -/
theorem Sound.goIn (hh : h.Sound) (hv : v ∈ h.visits) (hwaits : v.stage.isWaiting = true)
    (hholder : h.locks.holder? v.key = some v.task) : (h.goIn v.task).Sound := by
  refine hh.update (fun _ => rfl) (fun u hu ht => ?_) (fun u hu ht _ => ?_)
  · rw [hh.eq_of_task hu hv ht]
    exact (Visit.isPresent_of_isWaiting hwaits).symm
  · rw [hh.eq_of_task hu hv ht]
    exact hholder

/-- Whoever waits may be told how to leave. -/
theorem Sound.tell (hh : h.Sound) (task : τ) (exit : Exit) : (h.tell task exit).Sound :=
  hh.update (fun _ => rfl) (fun _ _ _ => rfl) fun u hu _ hinside => hh.inside u hu hinside

omit [DecidableEq τ] in
theorem Sound.clock (hh : h.Sound) (now : Int) : Sound { h with now := now } :=
  ⟨hh.orderly, hh.numbered, hh.tasks_nodup, hh.line_eq, hh.inside, hh.serial, hh.issued⟩

theorem holds_iff : h.locks.holds key task = true ↔ h.locks.holder? key = some task := by
  simp [Registry.holds]

/-- Every move keeps a hall sound. -/
theorem Sound.step (hh : h.Sound) (move : Move κ τ) : (h.step move).Sound := by
  cases move with
  | come task key timeout =>
    cases hvisit : h.visit? task with
    | none =>
      simp only [Hall.step, hvisit, Option.isSome_none]
      exact hh.come hvisit key timeout
    | some v =>
      simp only [Hall.step, hvisit, Option.isSome_some, if_true]
      exact hh
  | goIn task =>
    cases hvisit : h.visit? task with
    | none => simpa only [Hall.step, hvisit] using hh
    | some v =>
      rcases mem_of_visit? hvisit with ⟨hv, rfl⟩
      simp only [Hall.step, hvisit, Bool.and_eq_true]
      split
      · rename_i hmay
        exact hh.goIn hv hmay.1 (holds_iff.1 hmay.2)
      · exact hh
  | leave task outcome =>
    cases hvisit : h.visit? task with
    | none => simpa only [Hall.step, hvisit] using hh
    | some v =>
      rcases mem_of_visit? hvisit with ⟨hv, rfl⟩
      simp only [Hall.step, hvisit]
      split
      · rename_i hinside
        exact hh.depart hv (hh.inside v hv hinside) outcome
      · exact hh
  | quit task outcome =>
    cases hvisit : h.visit? task with
    | none => simpa only [Hall.step, hvisit] using hh
    | some v =>
      rcases mem_of_visit? hvisit with ⟨hv, rfl⟩
      simp only [Hall.step, hvisit]
      split
      · rename_i hwaits
        split
        · rename_i hholds
          exact hh.depart hv (holds_iff.1 hholds) outcome
        · rename_i hholds
          exact hh.giveUp hv hwaits (fun h' => hholds (holds_iff.2 h')) outcome
      · exact hh
  | tell task exit =>
    cases hvisit : h.visit? task with
    | none => simpa only [Hall.step, hvisit] using hh
    | some v =>
      simp only [Hall.step, hvisit]
      split
      · exact hh.tell task exit
      · exact hh
  | clock now => exact hh.clock now

theorem Sound.run (hh : h.Sound) (moves : List (Move κ τ)) : (h.run moves).Sound := by
  induction moves generalizing h with
  | nil => exact hh
  | cons move moves ih => exact ih (hh.step move)

end Hall

end PuzzleContest.Lock
