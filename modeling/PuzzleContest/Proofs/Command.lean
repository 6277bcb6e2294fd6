import PuzzleContest.Proofs.Hall

/-!
# Commands as moves

A command to the tasks at keyed locks is a list of moves after which nothing more can happen by itself.

Main results:

- `Hall.Settled`: nobody waits for a lock that has been handed over; all commands keep this.
- `Hall.Leads`: one hall comes from another by moves.
- `Hall.leads_obeyAll`: what commands bring about, moves bring about.
-/

namespace PuzzleContest.Lock.Hall

variable {κ τ : Type} [DecidableEq κ] [DecidableEq τ]
variable {h h' h'' : Hall κ τ} {v u : Visit κ τ} {task : τ}

/-! ## Halls that come from each other -/

/-- Some moves lead from one hall to the other. -/
def Leads (h h' : Hall κ τ) : Prop := ∃ moves, h.run moves = h'

theorem Leads.refl (h : Hall κ τ) : Leads h h := ⟨[], rfl⟩

theorem Leads.trans (h₁ : Leads h h') (h₂ : Leads h' h'') : Leads h h'' := by
  rcases h₁ with ⟨moves, rfl⟩
  rcases h₂ with ⟨more, rfl⟩
  exact ⟨moves ++ more, run_append h moves more⟩

theorem leads_step (h : Hall κ τ) (move : Move κ τ) : Leads h (h.step move) := ⟨[move], rfl⟩

theorem Leads.sound (h₁ : Leads h h') (hh : h.Sound) : h'.Sound := by
  rcases h₁ with ⟨moves, rfl⟩
  exact hh.run moves

/-! ## Single moves -/

theorem Sound.step_goIn (hh : h.Sound) (hv : v ∈ h.visits) (hwaits : v.stage.isWaiting = true)
    (hholds : h.locks.holds v.key v.task = true) : h.step (.goIn v.task) = h.goIn v.task := by
  simp [Hall.step, hh.visit?_of_mem hv, hwaits, hholds]

theorem Sound.step_leave (hh : h.Sound) (hv : v ∈ h.visits) (hinside : v.isInside = true)
    (outcome : Outcome) : h.step (.leave v.task outcome) = h.depart v outcome := by
  simp [Hall.step, hh.visit?_of_mem hv, hinside]

theorem Sound.step_giveUp (hh : h.Sound) (hv : v ∈ h.visits) (hwaits : v.stage.isWaiting = true)
    (hnot : h.locks.holds v.key v.task = false) (outcome : Outcome) :
    h.step (.quit v.task outcome) = h.giveUp v outcome := by
  simp [Hall.step, hh.visit?_of_mem hv, hwaits, hnot]

theorem Sound.step_tell (hh : h.Sound) (hv : v ∈ h.visits) (hwaits : v.stage.isWaiting = true)
    (exit : Exit) : h.step (.tell v.task exit) = h.tell v.task exit := by
  simp [Hall.step, hh.visit?_of_mem hv, hwaits]

/-! ## Letting tasks in -/

theorem mem_of_admissible? (hv : h.admissible? = some v) :
    v ∈ h.visits ∧ v.stage.isWaiting = true ∧ h.locks.holds v.key v.task = true := by
  refine ⟨List.mem_of_find?_eq_some hv, ?_⟩
  simpa using List.find?_some hv

/-- Nobody waits for a lock that has been handed over. -/
def Settled (h : Hall κ τ) : Prop :=
  ∀ v ∈ h.visits, v.stage.isWaiting = true → h.locks.holds v.key v.task = false

theorem settled_of_admissible? (hnone : h.admissible? = none) : h.Settled := by
  intro v hv hwaits
  have hno := List.find?_eq_none.1 hnone v hv
  simpa [hwaits] using hno

theorem settled_empty : Settled ({} : Hall κ τ) := fun _ hv => absurd hv List.not_mem_nil

theorem settled_settle (h : Hall κ τ) : h.settle.Settled := by
  fun_induction settle h with
  | case1 h hnone => exact settled_of_admissible? hnone
  | case2 h v hv ih => exact ih

theorem Sound.leads_letIn (hh : h.Sound) (hv : h.admissible? = some v) : Leads h (h.letIn v) := by
  rcases mem_of_admissible? hv with ⟨hmem, hwaits, hholds⟩
  have hgo : Leads h (h.goIn v.task) := hh.step_goIn hmem hwaits hholds ▸ leads_step h _
  unfold letIn
  cases hwish : v.wish with
  | none => exact hgo
  | some exit =>
    have hinside : { v with stage := .inside h.now } ∈ (h.goIn v.task).visits :=
      List.mem_map.2 ⟨v, hmem, if_pos rfl⟩
    have hleave := (hgo.sound hh).step_leave hinside rfl (Exit.outcome exit)
    exact hgo.trans ⟨[.leave v.task (Exit.outcome exit)], hleave⟩

theorem Sound.leads_settle (hh : h.Sound) : Leads h h.settle := by
  fun_induction settle h with
  | case1 h hnone => exact .refl h
  | case2 h v hv ih => exact (hh.leads_letIn hv).trans (ih ((hh.leads_letIn hv).sound hh))

/-! ## Giving up -/

theorem mem_giveUp {outcome : Outcome} (hu : u ∈ (h.giveUp v outcome).visits)
    (hwaits : u.stage.isWaiting = true) : u ∈ h.visits ∧ u.task ≠ v.task := by
  rcases List.mem_map.1 hu with ⟨w, hw, rfl⟩
  by_cases ht : w.task = v.task
  · rw [if_pos ht] at hwaits
    exact absurd hwaits (by simp [Stage.isWaiting])
  · rw [if_neg ht]
    exact ⟨hw, ht⟩

/-- When one who waits gives up, the locks of the others stay with their holders. -/
theorem Sound.settled_giveUp (hh : h.Sound) (hset : h.Settled) (hv : v ∈ h.visits)
    (hwaits : v.stage.isWaiting = true) (outcome : Outcome) : (h.giveUp v outcome).Settled := by
  intro u hu huwaits
  rcases mem_giveUp hu huwaits with ⟨hold, -⟩
  have hkept : (h.giveUp v outcome).locks.holder? u.key = h.locks.holder? u.key := by
    refine Registry.holder?_withdraw hh.orderly.sound
      (hh.uses hv (Visit.isPresent_of_isWaiting hwaits)) ?_ u.key
    simpa [Registry.holds] using hset v hv hwaits
  have hbefore := hset u hold huwaits
  simp only [Registry.holds] at hbefore ⊢
  rw [hkept]
  exact hbefore

theorem Sound.leads_giveUp (hh : h.Sound) (hset : h.Settled) (hv : v ∈ h.visits)
    (hwaits : v.stage.isWaiting = true) (outcome : Outcome) : Leads h (h.giveUp v outcome) :=
  hh.step_giveUp hv hwaits (hset v hv hwaits) outcome ▸ leads_step h _

/-- Some who wait give up one after another, each at a time of its own. -/
theorem Sound.leads_lapse (hh : h.Sound) (hset : h.Settled) (time : Visit κ τ → Int)
    (due : List (Visit κ τ)) (hnodup : (due.map (·.task)).Nodup)
    (hdue : ∀ v ∈ due, v ∈ h.visits ∧ v.stage.isWaiting = true) :
    Leads h (due.foldl (fun h v => Hall.giveUp { h with now := time v } v .timedOut) h) ∧
      Settled (due.foldl (fun h v => Hall.giveUp { h with now := time v } v .timedOut) h) := by
  induction due generalizing h with
  | nil => exact ⟨.refl h, hset⟩
  | cons v due ih =>
    rcases List.nodup_cons.1 hnodup with ⟨hnew, hrest⟩
    rcases hdue v List.mem_cons_self with ⟨hv, hwaits⟩
    have htimed : Sound { h with now := time v } := hh.clock (time v)
    have hclock : Leads h { h with now := time v } := leads_step h (.clock (time v))
    have hgave := htimed.leads_giveUp hset hv hwaits .timedOut
    have hsettled := htimed.settled_giveUp hset hv hwaits .timedOut
    have hothers : ∀ u ∈ due, u ∈ (Hall.giveUp { h with now := time v } v .timedOut).visits ∧
        u.stage.isWaiting = true := by
      intro u hu
      rcases hdue u (List.mem_cons_of_mem _ hu) with ⟨hmem, huwaits⟩
      have hne : u.task ≠ v.task := fun heq => hnew (List.mem_map.2 ⟨u, hu, heq⟩)
      exact ⟨List.mem_map.2 ⟨u, hmem, if_neg hne⟩, huwaits⟩
    rcases ih (hgave.sound htimed) hsettled hrest hothers with ⟨hleads, hset'⟩
    exact ⟨(hclock.trans hgave).trans hleads, hset'⟩

/-! ## Commands -/

/-- What can be asked of a hall. -/
inductive Command (κ τ : Type) where
  /-- A new task asks for a key; the name of a task is not used twice. -/
  | acquire (task : τ) (key : κ) (timeout : Option Int)
  | dismiss (task : τ) (exit : Exit)
  | cancel (task : τ)
  | advance (nanos : Int)

/-- The hall after one command. -/
def obey (h : Hall κ τ) : Command κ τ → Hall κ τ
  | .acquire task key timeout => if (h.visit? task).isSome then h else h.acquire task key timeout
  | .dismiss task exit => h.dismiss task exit
  | .cancel task => h.cancel task
  | .advance nanos => h.advance nanos

/-- The hall after a list of commands. -/
def obeyAll (h : Hall κ τ) (commands : List (Command κ τ)) : Hall κ τ := commands.foldl obey h

theorem Sound.leads_acquire (hh : h.Sound) (hnew : h.visit? task = none) (key : κ)
    (timeout : Option Int) :
    Leads h (h.acquire task key timeout) ∧ (h.acquire task key timeout).Settled := by
  have hcome : Leads h (h.come task key timeout) := by
    have hstep : h.step (.come task key timeout) = h.come task key timeout := by simp [Hall.step, hnew]
    exact hstep ▸ leads_step h _
  have hthere := hcome.trans (hcome.sound hh).leads_settle
  have hsettled := settled_settle (h.come task key timeout)
  simp only [acquire]
  split
  · rename_i w hvisit
    have hmem : w ∈ (h.come task key timeout).settle.visits := (mem_of_visit? hvisit).1
    split
    · rename_i hlate
      rw [Bool.and_eq_true] at hlate
      exact ⟨hthere.trans ((hthere.sound hh).leads_giveUp hsettled hmem hlate.1 .timedOut),
        (hthere.sound hh).settled_giveUp hsettled hmem hlate.1 .timedOut⟩
    · exact ⟨hthere, hsettled⟩
  · exact ⟨hthere, hsettled⟩

/-- A task inside leaves, and then all come in who can. -/
theorem Sound.leads_depart (hh : h.Sound) (hv : v ∈ h.visits) (hinside : v.isInside = true)
    (outcome : Outcome) :
    Leads h (h.depart v outcome).settle ∧ (h.depart v outcome).settle.Settled := by
  have hleft : Leads h (h.depart v outcome) := hh.step_leave hv hinside outcome ▸ leads_step h _
  exact ⟨hleft.trans (hleft.sound hh).leads_settle, settled_settle _⟩

theorem Settled.tell (hset : h.Settled) (task : τ) (exit : Exit) : (h.tell task exit).Settled := by
  intro u hu hwaits
  rcases List.mem_map.1 hu with ⟨w, hw, rfl⟩
  by_cases ht : w.task = task
  · rw [if_pos ht] at hwaits ⊢
    exact hset w hw hwaits
  · rw [if_neg ht] at hwaits ⊢
    exact hset w hw hwaits

theorem Sound.leads_dismiss (hh : h.Sound) (hset : h.Settled) (task : τ) (exit : Exit) :
    Leads h (h.dismiss task exit) ∧ (h.dismiss task exit).Settled := by
  unfold dismiss
  cases hvisit : h.visit? task with
  | none => exact ⟨.refl h, hset⟩
  | some v =>
    rcases mem_of_visit? hvisit with ⟨hv, rfl⟩
    cases hstage : v.stage with
    | ended outcome time =>
      simp only [hstage]
      exact ⟨.refl h, hset⟩
    | inside since =>
      simp only [hstage]
      exact hh.leads_depart hv (by simp [Visit.isInside, hstage]) (Exit.outcome exit)
    | waiting =>
      simp only [hstage]
      have htell := hh.step_tell hv (by simp [hstage, Stage.isWaiting]) exit
      exact ⟨⟨[.tell v.task exit], htell⟩, hset.tell v.task exit⟩

theorem Sound.leads_cancel (hh : h.Sound) (hset : h.Settled) (task : τ) :
    Leads h (h.cancel task) ∧ (h.cancel task).Settled := by
  unfold cancel
  cases hvisit : h.visit? task with
  | none => exact ⟨.refl h, hset⟩
  | some v =>
    rcases mem_of_visit? hvisit with ⟨hv, rfl⟩
    cases hstage : v.stage with
    | ended outcome time =>
      simp only [hstage]
      exact ⟨.refl h, hset⟩
    | inside since =>
      simp only [hstage]
      exact hh.leads_depart hv (by simp [Visit.isInside, hstage]) .cancelled
    | waiting =>
      simp only [hstage]
      have hwaits : v.stage.isWaiting = true := by simp [hstage, Stage.isWaiting]
      exact ⟨hh.leads_giveUp hset hv hwaits .cancelled, hh.settled_giveUp hset hv hwaits .cancelled⟩

theorem Sound.leads_advance (hh : h.Sound) (hset : h.Settled) (nanos : Int) :
    Leads h (h.advance nanos) ∧ (h.advance nanos).Settled := by
  have hdue : ∀ v ∈ h.visits.filter (isDue (h.now + nanos)),
      v ∈ h.visits ∧ v.stage.isWaiting = true := by
    intro v hv
    rcases List.mem_filter.1 hv with ⟨hmem, hlate⟩
    rw [isDue, Bool.and_eq_true] at hlate
    exact ⟨hmem, hlate.1⟩
  rcases hh.leads_lapse hset (fun v => v.deadline.getD (h.now + nanos)) _
    (hh.tasks_nodup.sublist (List.filter_sublist.map _)) hdue with ⟨hleads, hsettled⟩
  exact ⟨hleads.trans (leads_step _ (.clock (h.now + nanos))), hsettled⟩

/-- A command is a list of moves after which nothing more happens. -/
theorem Sound.leads_obey (hh : h.Sound) (hset : h.Settled) (command : Command κ τ) :
    Leads h (h.obey command) ∧ (h.obey command).Settled := by
  cases command with
  | acquire task key timeout =>
    cases hvisit : h.visit? task with
    | none =>
      simp only [obey, hvisit, Option.isSome_none]
      exact hh.leads_acquire hvisit key timeout
    | some v =>
      simp only [obey, hvisit, Option.isSome_some, if_true]
      exact ⟨.refl h, hset⟩
  | dismiss task exit => exact hh.leads_dismiss hset task exit
  | cancel task => exact hh.leads_cancel hset task
  | advance nanos => exact hh.leads_advance hset nanos

/-- What commands bring about, moves bring about. -/
theorem Sound.leads_obeyAll (hh : h.Sound) (hset : h.Settled) (commands : List (Command κ τ)) :
    Leads h (h.obeyAll commands) := by
  induction commands generalizing h with
  | nil => exact .refl h
  | cons command commands ih =>
    rcases hh.leads_obey hset command with ⟨hleads, hset'⟩
    exact hleads.trans (ih (hleads.sound hh) hset')

end PuzzleContest.Lock.Hall
