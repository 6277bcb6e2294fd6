import PuzzleContest.Proofs.Fairness

/-!
# The block of one key by itself

A room is what a hall of keyed locks is to those who come for one key: the clock and their visits.
Everything that becomes of them can be told from that.  The first of those who are present holds the
lock; when a hall settles, the first goes inside unless it is there, and the next one too when the
first leaves at once.

Main definitions:

- `Room`: the clock and the visits to the block of one key.
- `Room.slot?`: the entry of the lock, which can be told from the visits.
- `Room.step`, `Room.obey`: what becomes of a room by a move and by a command.

Main results:

- `Room.settle_of_settled`: nobody goes inside if the first who is present is there.
- `Room.settle_letIn`: to let in the first is the beginning of letting in all who can get in.
-/

namespace PuzzleContest.Lock

variable {κ τ : Type}

namespace Visit

/-- A visit, whatever the number of the lock that it asked for. -/
def bare (v : Visit κ τ) : Visit κ τ := { v with serial := 0 }

@[simp]
theorem task_bare (v : Visit κ τ) : v.bare.task = v.task := rfl

@[simp]
theorem stage_bare (v : Visit κ τ) : v.bare.stage = v.stage := rfl

@[simp]
theorem isInside_bare (v : Visit κ τ) : v.bare.isInside = v.isInside := rfl

end Visit

/-- The clock and the visits to the block of one key, in the order of their arrival. -/
structure Room (κ τ : Type) where
  now : Int
  visits : List (Visit κ τ)

namespace Room

variable [DecidableEq τ]

/-- The visit of a task. -/
def visit? (q : Room κ τ) (task : τ) : Option (Visit κ τ) := q.visits.find? fun v => v.task = task

/-- Change the visits of a task. -/
def update (q : Room κ τ) (task : τ) (f : Visit κ τ → Visit κ τ) : Room κ τ :=
  { q with visits := q.visits.map fun v => if v.task = task then f v else v }

/-- Those who are present, in order of arrival. -/
def line (q : Room κ τ) : List τ := (q.visits.filter Visit.isPresent).map (·.task)

/-- The first of those who are present holds the lock. -/
def holds (q : Room κ τ) (task : τ) : Bool := q.line.head? = some task

/-- The users of the lock, its holder and those who wait, if it is in use. -/
def slot? (q : Room κ τ) : Option (Nat × Option τ × List τ) :=
  match q.line with
  | [] => none
  | task :: waiters => some (waiters.length + 1, some task, waiters)

/-! ## Moves -/

/-- A new visit. -/
def come (q : Room κ τ) (task : τ) (key : κ) (timeout : Option Int) : Room κ τ :=
  let v : Visit κ τ := {
    task, key
    serial := 0
    arrived := q.now
    deadline := timeout.map fun t => q.now + max t 0
    wish := none
    stage := .waiting }
  { q with visits := q.visits ++ [v] }

/-- A task goes inside. -/
def goIn (q : Room κ τ) (task : τ) : Room κ τ :=
  q.update task fun v => { v with stage := .inside q.now }

/-- A visit ends. -/
def finish (q : Room κ τ) (task : τ) (outcome : Outcome) : Room κ τ :=
  q.update task fun v => { v with stage := .ended outcome q.now }

/-- A task that is not yet inside is told how to leave. -/
def tell (q : Room κ τ) (task : τ) (exit : Exit) : Room κ τ :=
  q.update task fun v =>
    { v with wish := if v.wish = some .failing then some .failing else some exit }

/-- The room after one move of a task that comes for its key, or of the clock. -/
def step (q : Room κ τ) : Hall.Move κ τ → Room κ τ
  | .come task key timeout => q.come task key timeout
  | .goIn task =>
    match q.visit? task with
    | some v => if v.stage.isWaiting && q.holds task then q.goIn task else q
    | none => q
  | .leave task outcome =>
    match q.visit? task with
    | some v => if v.isInside then q.finish task outcome else q
    | none => q
  | .quit task outcome =>
    match q.visit? task with
    | some v => if v.stage.isWaiting then q.finish task outcome else q
    | none => q
  | .tell task exit =>
    match q.visit? task with
    | some v => if v.stage.isWaiting then q.tell task exit else q
    | none => q
  | .clock now => { q with now := now }

/-! ## Commands -/

/-- The first who is present goes inside, and as long as one leaves at once the next one too. -/
def letAll (now : Int) : List (Visit κ τ) → List (Visit κ τ)
  | [] => []
  | v :: rest =>
    match v.stage, v.wish with
    | .ended _ _, _ => v :: letAll now rest
    | .inside _, _ => v :: rest
    | .waiting, none => { v with stage := .inside now } :: rest
    | .waiting, some exit => { v with stage := .ended (Hall.Exit.outcome exit) now } :: letAll now rest

/-- Those who go inside in this way. -/
def entering (now : Int) : List (Visit κ τ) → List (Admission κ τ)
  | [] => []
  | v :: rest =>
    match v.stage, v.wish with
    | .ended _ _, _ => entering now rest
    | .inside _, _ => []
    | .waiting, none => [⟨v.task, v.key, now⟩]
    | .waiting, some _ => ⟨v.task, v.key, now⟩ :: entering now rest

/-- Let in all who can get in. -/
def settle (q : Room κ τ) : Room κ τ := { q with visits := letAll q.now q.visits }

/-- Those who come in when a room settles. -/
def entries (q : Room κ τ) : List (Admission κ τ) := entering q.now q.visits

/-- A new task comes, and does not wait when its deadline has come. -/
def acquire (q : Room κ τ) (task : τ) (key : κ) (timeout : Option Int) : Room κ τ :=
  let q := (q.come task key timeout).settle
  match q.visit? task with
  | some v =>
    if v.stage.isWaiting && decide (∃ d ∈ v.deadline, d ≤ q.now) then q.finish task .timedOut else q
  | none => q

/-- A task is told to leave. -/
def dismiss (q : Room κ τ) (task : τ) (exit : Exit) : Room κ τ :=
  match q.visit? task with
  | none => q
  | some v =>
    match v.stage with
    | .ended _ _ => q
    | .inside _ => (q.finish task (Hall.Exit.outcome exit)).settle
    | .waiting => q.tell task exit

/-- A task is cancelled. -/
def cancel (q : Room κ τ) (task : τ) : Room κ τ :=
  match q.visit? task with
  | none => q
  | some v =>
    match v.stage with
    | .ended _ _ => q
    | .inside _ => (q.finish task .cancelled).settle
    | .waiting => q.finish task .cancelled

/-- The clock moves, and each wait ends at its deadline. -/
def advance (q : Room κ τ) (nanos : Int) : Room κ τ :=
  ⟨q.now + nanos, q.visits.map (Visit.lapse (q.now + nanos))⟩

/-- The room after one command to a task that comes for its key, or to the clock. -/
def obey (q : Room κ τ) : Hall.Command κ τ → Room κ τ
  | .acquire task key timeout => q.acquire task key timeout
  | .dismiss task exit => q.dismiss task exit
  | .cancel task => q.cancel task
  | .advance nanos => q.advance nanos

/-- Those who come in by a command. -/
def admits (q : Room κ τ) : Hall.Command κ τ → List (Admission κ τ)
  | .acquire task key timeout => (q.come task key timeout).entries
  | .dismiss task exit =>
    match q.visit? task with
    | some v => if v.isInside then (q.finish task (Hall.Exit.outcome exit)).entries else []
    | none => []
  | .cancel task =>
    match q.visit? task with
    | some v => if v.isInside then (q.finish task .cancelled).entries else []
    | none => []
  | .advance _ => []

/-! ## Letting in -/

variable {q : Room κ τ} {v : Visit κ τ} {task : τ} {now : Int} {before rest : List (Visit κ τ)}

theorem visit?_eq_none_iff : q.visit? task = none ↔ ∀ v ∈ q.visits, v.task ≠ task := by
  simp [visit?]

theorem update_of_visit? (h : q.visit? task = none) (f : Visit κ τ → Visit κ τ) :
    q.update task f = q := by
  have hsame : (q.visits.map fun v => if v.task = task then f v else v) = q.visits := by
    conv_rhs => rw [← List.map_id q.visits]
    exact List.map_congr_left fun v hv => if_neg (visit?_eq_none_iff.1 h v hv)
  rw [update, hsame]

omit [DecidableEq τ] in
theorem letAll_append (hbefore : ∀ v ∈ before, v.isPresent = false) :
    letAll now (before ++ rest) = before ++ letAll now rest := by
  induction before with
  | nil => rfl
  | cons v before ih =>
    have hgone := hbefore v List.mem_cons_self
    have hrest := ih fun u hu => hbefore u (List.mem_cons_of_mem _ hu)
    cases hstage : v.stage with
    | ended outcome time => simp [letAll, hstage, hrest]
    | waiting | inside => simp [Visit.isPresent, hstage] at hgone

omit [DecidableEq τ] in
theorem entering_append (hbefore : ∀ v ∈ before, v.isPresent = false) :
    entering now (before ++ rest) = entering now rest := by
  induction before with
  | nil => rfl
  | cons v before ih =>
    have hgone := hbefore v List.mem_cons_self
    have hrest := ih fun u hu => hbefore u (List.mem_cons_of_mem _ hu)
    cases hstage : v.stage with
    | ended outcome time => simp [entering, hstage, hrest]
    | waiting | inside => simp [Visit.isPresent, hstage] at hgone

/-- Nobody goes inside if the first of those who are present is there. -/
theorem settle_of_settled (hsettled : ∀ v ∈ q.visits, v.stage.isWaiting = true →
    q.holds v.task = false) : q.settle = q ∧ q.entries = [] := by
  obtain ⟨now, visits⟩ := q
  suffices h : letAll now visits = visits ∧ entering now visits = [] from
    ⟨congrArg (Room.mk now) h.1, h.2⟩
  induction visits with
  | nil => exact ⟨rfl, rfl⟩
  | cons v rest ih =>
    cases hstage : v.stage with
    | inside since => simp [letAll, entering, hstage]
    | waiting =>
      have hfirst := hsettled v List.mem_cons_self (by simp [hstage, Stage.isWaiting])
      simp [holds, line, Visit.isPresent, hstage] at hfirst
    | ended outcome time =>
      have hline : Room.line ⟨now, v :: rest⟩ = Room.line ⟨now, rest⟩ := by
        simp [line, Visit.isPresent, hstage]
      have hrest := ih fun u hu hwaits => by
        have hnot := hsettled u (List.mem_cons_of_mem _ hu) hwaits
        rwa [holds, hline] at hnot
      simp [letAll, entering, hstage, hrest]

/-- Let one in; one that was told to leave goes straight through. -/
def letIn (q : Room κ τ) (v : Visit κ τ) : Room κ τ :=
  match v.wish with
  | none => q.goIn v.task
  | some exit => (q.goIn v.task).finish v.task (Hall.Exit.outcome exit)

theorem update_of_split (hsplit : q.visits = before ++ v :: rest)
    (hnodup : (q.visits.map (·.task)).Nodup) (f : Visit κ τ → Visit κ τ) :
    q.update v.task f = ⟨q.now, before ++ f v :: rest⟩ := by
  have hothers : ∀ u, u ∈ before ∨ u ∈ rest → u.task ≠ v.task := by
    rw [hsplit, List.map_append, List.map_cons, List.nodup_middle, List.nodup_cons,
      ← List.map_append] at hnodup
    intro u hu heq
    exact hnodup.1 (List.mem_map.2 ⟨u, List.mem_append.2 hu, heq⟩)
  have hsame : ∀ l : List (Visit κ τ), (∀ u ∈ l, u.task ≠ v.task) →
      l.map (fun u => if u.task = v.task then f u else u) = l := by
    intro l hl
    conv_rhs => rw [← List.map_id l]
    exact List.map_congr_left fun u hu => if_neg (hl u hu)
  simp only [update, hsplit, List.map_append, List.map_cons, if_true,
    hsame before fun u hu => hothers u (.inl hu), hsame rest fun u hu => hothers u (.inr hu)]

/-- Whoever holds the lock has nobody in front who is present. -/
theorem absent_of_holds (hsplit : q.visits = before ++ v :: rest)
    (hnodup : (q.visits.map (·.task)).Nodup) (hholds : q.holds v.task = true) :
    ∀ u ∈ before, u.isPresent = false := by
  intro u hu
  by_contra hpresent
  have hmem : u ∈ before.filter Visit.isPresent := List.mem_filter.2 ⟨hu, by simpa using hpresent⟩
  obtain ⟨w, ws, hfilter⟩ := List.exists_cons_of_ne_nil (List.ne_nil_of_mem hmem)
  have hw : w ∈ before := (List.mem_filter.1 (hfilter ▸ List.mem_cons_self)).1
  have hhead : w.task = v.task := by
    have hline := of_decide_eq_true hholds
    rw [line, hsplit, List.filter_append, hfilter] at hline
    simpa using hline
  rw [hsplit, List.map_append, List.map_cons, List.nodup_middle, List.nodup_cons,
    ← List.map_append] at hnodup
  exact hnodup.1 (List.mem_map.2 ⟨w, List.mem_append_left _ hw, hhead⟩)

/-- To let in whoever holds the lock is the beginning of letting in all who can get in. -/
theorem settle_letIn (hnodup : (q.visits.map (·.task)).Nodup) (hv : v ∈ q.visits)
    (hwaits : v.stage.isWaiting = true) (hholds : q.holds v.task = true) :
    (q.letIn v).settle = q.settle ∧
      q.entries = ⟨v.task, v.key, q.now⟩ :: (q.letIn v).entries := by
  obtain ⟨before, rest, hsplit⟩ := List.append_of_mem hv
  have hgone := absent_of_holds hsplit hnodup hholds
  have hstage := Visit.stage_of_isWaiting hwaits
  have hinside : q.goIn v.task = ⟨q.now, before ++ { v with stage := .inside q.now } :: rest⟩ :=
    update_of_split hsplit hnodup fun u => { u with stage := .inside q.now }
  obtain ⟨wish, hwish⟩ : ∃ wish, v.wish = wish := ⟨_, rfl⟩
  cases wish with
  | none =>
    have hletIn : q.letIn v = ⟨q.now, before ++ { v with stage := .inside q.now } :: rest⟩ := by
      simp only [letIn, hwish, hinside]
    rw [hletIn]
    simp only [settle, entries, hsplit, letAll_append hgone, entering_append hgone]
    simp [letAll, entering, hstage, hwish]
  | some exit =>
    have htasks : ((q.goIn v.task).visits.map (·.task)).Nodup := by
      rw [hsplit] at hnodup
      simpa [hinside] using hnodup
    have hended : (q.goIn v.task).finish v.task (Hall.Exit.outcome exit) = ⟨q.now, before ++
        { v with stage := .ended (Hall.Exit.outcome exit) q.now } :: rest⟩ :=
      update_of_split (v := { v with stage := .inside q.now }) (congrArg Room.visits hinside) htasks
        fun u => { u with stage := .ended (Hall.Exit.outcome exit) q.now }
    have hletIn : q.letIn v = ⟨q.now, before ++
        { v with stage := .ended (Hall.Exit.outcome exit) q.now } :: rest⟩ := by
      simp only [letIn, hwish, hended]
    rw [hletIn]
    simp only [settle, entries, hsplit, letAll_append hgone, entering_append hgone]
    simp [letAll, entering, hstage, hwish]

end Room

end PuzzleContest.Lock
