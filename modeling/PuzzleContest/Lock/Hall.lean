import PuzzleContest.Lock.Registry

/-!
# Tasks that visit keyed locks over time

A hall follows named tasks, each of which enters the block of one key of the keyed locks, perhaps waiting
for at most some time, and leaves it normally, by a failure, or by being cancelled.  Time is a number of
nanoseconds that moves only by `advance`.  After every command everything that can happen has
happened: a free lock has no one waiting for it, and a task that was told to leave is gone as soon
as it is inside.

Main definitions:

- `Visit`: what became of one task.
- `Hall.acquire`, `Hall.dismiss`, `Hall.cancel`, `Hall.advance`: the commands.
-/

namespace PuzzleContest.Lock

variable {κ τ : Type}

/-- How a task is told to leave its block. -/
inductive Exit where
  | normal
  | failing
deriving DecidableEq, Repr

/-- How a visit came to its end. -/
inductive Outcome where
  | released
  | failed
  | cancelled
  | timedOut
deriving DecidableEq, Repr

/-- How far a visit is, with the time of its last turn. -/
inductive Stage where
  | waiting
  | inside (since : Int)
  | ended (outcome : Outcome) (time : Int)
deriving DecidableEq, Repr

/-- Whether a visit waits. -/
def Stage.isWaiting : Stage → Bool
  | waiting => true
  | _ => false

/-- The visit of one task to the block of one key. -/
structure Visit (κ τ : Type) where
  task : τ
  key : κ
  /-- The serial number of the lock that the task asked for. -/
  serial : Nat
  arrived : Int
  /-- When waiting ends, if it does. -/
  deadline : Option Int
  /-- How the task shall leave once it is inside, if it was told so before. -/
  wish : Option Exit
  stage : Stage
deriving DecidableEq, Repr

/-- The clock, the locks, and all visits in the order of their arrival. -/
structure Hall (κ τ : Type) where
  now : Int := 0
  locks : Registry κ τ := {}
  visits : List (Visit κ τ) := []
deriving DecidableEq, Repr

namespace Hall

variable [DecidableEq κ] [DecidableEq τ]

/-- Change the visits of a task. -/
def update (h : Hall κ τ) (task : τ) (f : Visit κ τ → Visit κ τ) : Hall κ τ :=
  { h with visits := h.visits.map fun v => if v.task = task then f v else v }

/-- The visit of a task. -/
def visit? (h : Hall κ τ) (task : τ) : Option (Visit κ τ) :=
  h.visits.find? fun v => v.task = task

/-- The outcome of leaving in a given way. -/
def Exit.outcome : Exit → Outcome
  | .normal => .released
  | .failing => .failed

/-- End a visit now. -/
def finish (h : Hall κ τ) (task : τ) (outcome : Outcome) : Hall κ τ :=
  h.update task fun v => { v with stage := .ended outcome h.now }

/-- A task inside its block leaves it. -/
def depart (h : Hall κ τ) (v : Visit κ τ) (outcome : Outcome) : Hall κ τ :=
  finish { h with locks := h.locks.leave v.key } v.task outcome

/-- A waiting task gives up. -/
def giveUp (h : Hall κ τ) (v : Visit κ τ) (outcome : Outcome) : Hall κ τ :=
  finish { h with locks := h.locks.withdraw v.key v.task } v.task outcome

/-- The number of visits that wait. -/
def waitingCount (h : Hall κ τ) : Nat := h.visits.countP fun v => v.stage.isWaiting

/-- A waiting visit whose lock has been handed over to it. -/
def admissible? (h : Hall κ τ) : Option (Visit κ τ) :=
  h.visits.find? fun v => v.stage.isWaiting && h.locks.holds v.key v.task

/-- Let an admissible visit in; one that was told to leave goes straight through. -/
def letIn (h : Hall κ τ) (v : Visit κ τ) : Hall κ τ :=
  let inside := h.update v.task fun v => { v with stage := .inside h.now }
  match v.wish with
  | none => inside
  | some e => inside.depart v (Exit.outcome e)

omit [DecidableEq κ] in
/-- Ending the wait of one visit leaves fewer that wait. -/
theorem countP_map_lt {l : List (Visit κ τ)} {task : τ} {f : Visit κ τ → Visit κ τ}
    (hf : ∀ v, (f v).stage.isWaiting = false) {v : Visit κ τ} (hv : v ∈ l) (ht : v.task = task)
    (hw : v.stage.isWaiting = true) :
    (l.map fun v => if v.task = task then f v else v).countP (fun v => v.stage.isWaiting) <
      l.countP fun v => v.stage.isWaiting := by
  have hle : ∀ l : List (Visit κ τ),
      (l.map fun v => if v.task = task then f v else v).countP (fun v => v.stage.isWaiting) ≤
        l.countP fun v => v.stage.isWaiting := by
    intro l
    induction l with
    | nil => simp
    | cons u rest ih =>
      simp only [List.map_cons, List.countP_cons]
      by_cases h : u.task = task <;> simp [h, hf, -List.countP_map] <;> omega
  induction l with
  | nil => simp at hv
  | cons u rest ih =>
    simp only [List.map_cons, List.countP_cons]
    rcases List.mem_cons.1 hv with rfl | hmem
    · have := hle rest
      simp [ht, hf, hw, -List.countP_map]
      omega
    · have := ih hmem
      by_cases h : u.task = task <;> simp [h, hf, -List.countP_map] <;> omega

/-- Letting a visit in leaves fewer that wait. -/
theorem waitingCount_letIn {h : Hall κ τ} {v : Visit κ τ} (hv : h.admissible? = some v) :
    (h.letIn v).waitingCount < h.waitingCount := by
  have hmem := List.mem_of_find?_eq_some hv
  have hw : v.stage.isWaiting = true := by
    have := List.find?_some hv
    simp only [Bool.and_eq_true] at this
    exact this.1
  have hlt := countP_map_lt (f := fun v => { v with stage := Stage.inside h.now })
    (fun _ => rfl) hmem rfl hw
  unfold letIn
  cases v.wish with
  | none => exact hlt
  | some e =>
    refine Nat.lt_of_le_of_lt ?_ hlt
    simp only [depart, finish, update, waitingCount, List.countP_map]
    apply List.countP_mono_left
    intro u _ hu
    by_cases hut : u.task = v.task
    · simp [Function.comp, hut, Stage.isWaiting] at hu
    · simpa [Function.comp, hut] using hu

/-- Let in all who can get in. -/
def settle (h : Hall κ τ) : Hall κ τ :=
  match _hv : h.admissible? with
  | none => h
  | some v => settle (h.letIn v)
termination_by h.waitingCount
decreasing_by exact waitingCount_letIn _hv

/-- A new task asks for a key.  With a timeout that is not positive it does not wait. -/
def acquire (h : Hall κ τ) (task : τ) (key : κ) (timeout : Option Int) : Hall κ τ :=
  let locks := h.locks.enter key task
  let v : Visit κ τ := {
    task, key
    serial := (locks.serial? key).getD 0
    arrived := h.now
    deadline := timeout.map fun t => h.now + max t 0
    wish := none
    stage := .waiting }
  let h := settle { h with locks, visits := h.visits ++ [v] }
  match h.visit? task with
  | some w =>
    if w.stage.isWaiting && decide (∃ d ∈ w.deadline, d ≤ h.now) then h.giveUp w .timedOut else h
  | none => h

/-- A task may leave its block in a given way, at once or as soon as it is inside.  A failure
that was asked for is not taken back. -/
def dismiss (h : Hall κ τ) (task : τ) (exit : Exit) : Hall κ τ :=
  match h.visit? task with
  | none => h
  | some v =>
    match v.stage with
    | .ended _ _ => h
    | .inside _ => settle (h.depart v (Exit.outcome exit))
    | .waiting =>
      h.update task fun v =>
        { v with wish := if v.wish = some .failing then some .failing else some exit }

/-- Cancel a task. -/
def cancel (h : Hall κ τ) (task : τ) : Hall κ τ :=
  match h.visit? task with
  | none => h
  | some v =>
    match v.stage with
    | .ended _ _ => h
    | .inside _ => settle (h.depart v .cancelled)
    | .waiting => h.giveUp v .cancelled

/-- Whether waiting ends by a given time. -/
def isDue (time : Int) (v : Visit κ τ) : Bool :=
  v.stage.isWaiting && decide (∃ d ∈ v.deadline, d ≤ time)

/-- Move the clock.  Waiting ends at its deadline, which admits nobody. -/
def advance (h : Hall κ τ) (nanos : Int) : Hall κ τ :=
  let target := h.now + nanos
  let due := h.visits.filter (isDue target)
  let h := due.foldl (fun h v => giveUp { h with now := v.deadline.getD target } v .timedOut) h
  { h with now := target }

end Hall

end PuzzleContest.Lock
