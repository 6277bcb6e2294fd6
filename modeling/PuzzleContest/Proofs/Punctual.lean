import PuzzleContest.Proofs.Admission

/-!
# Halls between the commands

Between the commands to tasks at keyed locks nobody waits for a lock that has been handed over, the
book tells who has come in, and nobody waits past the deadline.  The clock ends each wait at its
deadline, and a task that asks with a timeout that is not positive either gets the lock at once or does
not wait.

Main definitions:

- `Hall.calls`, `Hall.admissions`: who asks for a lock and who comes in while commands are obeyed.
- `Hall.Obeys`: what a command comes to.
- `Hall.AtRest`: what holds between the commands.

Main results:

- `Hall.Sound.visits_advance`: what becomes of the visits when the clock moves.
- `Hall.AtRest.attended`: where somebody waits, somebody is inside.
- `Hall.AtRest.obey`, `Hall.AtRest.obeyAll`: every command keeps a hall at rest.
-/

namespace PuzzleContest.Lock

variable {κ τ : Type}

namespace Visit

variable {v : Visit κ τ}

/-- Waiting ends at its deadline once the clock has come to it. -/
def lapse (time : Int) (v : Visit κ τ) : Visit κ τ :=
  if Hall.isDue time v then { v with stage := .ended .timedOut (v.deadline.getD time) } else v

theorem call_lapse (time : Int) (v : Visit κ τ) : (v.lapse time).call = v.call := by
  unfold lapse
  split <;> rfl

theorem isDue_eq_true_iff {time : Int} :
    Hall.isDue time v = true ↔ v.stage.isWaiting = true ∧ ∃ d ∈ v.deadline, d ≤ time := by
  simp [Hall.isDue]

theorem lapse_of_not_isWaiting {time : Int} (h : v.stage.isWaiting = false) : v.lapse time = v := by
  simp [lapse, Hall.isDue, h]

theorem not_isWaiting_of_isInside (h : v.isInside = true) : v.stage.isWaiting = false := by
  obtain ⟨since, hstage⟩ := stage_of_isInside h
  rw [hstage, Stage.isWaiting]
  simp

theorem not_isWaiting_of_not_isPresent (h : v.isPresent = false) : v.stage.isWaiting = false := by
  by_contra hwaits
  have hpresent : v.isPresent = true := isPresent_of_isWaiting (by simpa using hwaits)
  simp [hpresent] at h

end Visit

namespace Hall

variable [DecidableEq κ] [DecidableEq τ] {h : Hall κ τ} {u v : Visit κ τ} {task : τ} {key : κ}
variable {timeout : Option Int} {log : List (Admission κ τ)}

/-! ## Calls and admissions -/

/-- Who asks for a lock by a command. -/
def call? (h : Hall κ τ) : Command κ τ → Option (Call κ τ)
  | .acquire task key timeout =>
    if (h.visit? task).isSome then none
    else some ⟨task, key, h.now, timeout.map fun t => h.now + max t 0⟩
  | _ => none

/-- Who comes in by a command. -/
def admits (h : Hall κ τ) : Command κ τ → List (Admission κ τ)
  | .acquire task key timeout =>
    if (h.visit? task).isSome then [] else (h.come task key timeout).entries
  | .dismiss task exit =>
    match h.visit? task with
    | some v => if v.isInside then (h.depart v (Exit.outcome exit)).entries else []
    | none => []
  | .cancel task =>
    match h.visit? task with
    | some v => if v.isInside then (h.depart v .cancelled).entries else []
    | none => []
  | .advance _ => []

/-- Who asks for a lock while commands are obeyed, in this order. -/
def calls (h : Hall κ τ) : List (Command κ τ) → List (Call κ τ)
  | [] => []
  | command :: commands => (h.call? command).toList ++ (h.obey command).calls commands

/-- Who comes in while commands are obeyed, in this order. -/
def admissions (h : Hall κ τ) : List (Command κ τ) → List (Admission κ τ)
  | [] => []
  | command :: commands => h.admits command ++ (h.obey command).admissions commands

/-- What a command comes to: the hall afterwards and those who come in. -/
inductive Obeys (h : Hall κ τ) : Command κ τ → Hall κ τ → List (Admission κ τ) → Prop where
  /-- The command concerns nobody who is present. -/
  | idle {command : Command κ τ} : h.call? command = none → Obeys h command h []
  | acquire {task : τ} {key : κ} {timeout : Option Int} (hnew : h.visit? task = none) :
    Obeys h (.acquire task key timeout) (h.acquire task key timeout)
      (h.come task key timeout).entries
  /-- Somebody inside leaves. -/
  | depart {command : Command κ τ} {v : Visit κ τ} {outcome : Outcome} (hv : v ∈ h.visits)
    (hinside : v.isInside = true) (hout : outcome ≠ .timedOut) : h.call? command = none →
    Obeys h command (h.depart v outcome).settle (h.depart v outcome).entries
  /-- Somebody who waits is cancelled. -/
  | giveUp {command : Command κ τ} {v : Visit κ τ} (hv : v ∈ h.visits)
    (hwaits : v.stage.isWaiting = true) : h.call? command = none →
    Obeys h command (h.giveUp v .cancelled) []
  /-- Somebody who waits is told how to leave. -/
  | tell {command : Command κ τ} {v : Visit κ τ} {exit : Exit} (hv : v ∈ h.visits)
    (hwaits : v.stage.isWaiting = true) : h.call? command = none →
    Obeys h command (h.tell v.task exit) []
  | advance {nanos : Int} : Obeys h (.advance nanos) (h.advance nanos) []

theorem obeys (h : Hall κ τ) (command : Command κ τ) :
    Obeys h command (h.obey command) (h.admits command) := by
  cases command with
  | acquire task key timeout =>
    cases hvisit : h.visit? task with
    | none =>
      simp only [Hall.obey, admits, hvisit, Option.isSome_none]
      exact .acquire hvisit
    | some v =>
      simp only [Hall.obey, admits, hvisit, Option.isSome_some, if_true]
      exact .idle (by simp [call?, hvisit])
  | dismiss task exit =>
    cases hvisit : h.visit? task with
    | none =>
      simp only [Hall.obey, admits, dismiss, hvisit]
      exact .idle rfl
    | some v =>
      obtain ⟨hv, rfl⟩ := mem_of_visit? hvisit
      cases hstage : v.stage with
      | ended outcome time =>
        simp only [Hall.obey, admits, dismiss, hvisit, hstage, Visit.isInside]
        exact .idle rfl
      | inside since =>
        have hinside : v.isInside = true := by simp [Visit.isInside, hstage]
        simp only [Hall.obey, admits, dismiss, hvisit, hstage, hinside, if_true]
        exact .depart hv hinside (by cases exit <;> simp [Exit.outcome]) rfl
      | waiting =>
        simp only [Hall.obey, admits, dismiss, hvisit, hstage, Visit.isInside]
        exact .tell hv (by simp [hstage, Stage.isWaiting]) rfl
  | cancel task =>
    cases hvisit : h.visit? task with
    | none =>
      simp only [Hall.obey, admits, Hall.cancel, hvisit]
      exact .idle rfl
    | some v =>
      obtain ⟨hv, rfl⟩ := mem_of_visit? hvisit
      cases hstage : v.stage with
      | ended outcome time =>
        simp only [Hall.obey, admits, Hall.cancel, hvisit, hstage, Visit.isInside]
        exact .idle rfl
      | inside since =>
        have hinside : v.isInside = true := by simp [Visit.isInside, hstage]
        simp only [Hall.obey, admits, Hall.cancel, hvisit, hstage, hinside, if_true]
        exact .depart hv hinside (by simp) rfl
      | waiting =>
        simp only [Hall.obey, admits, Hall.cancel, hvisit, hstage, Visit.isInside]
        exact .giveUp hv (by simp [hstage, Stage.isWaiting]) rfl
  | advance nanos => exact .advance

/-! ## The clock -/

omit [DecidableEq κ] in
theorem mem_update {f : Visit κ τ → Visit κ τ} (hv : v ∈ (h.update task f).visits) :
    v ∈ h.visits ∧ v.task ≠ task ∨ ∃ w ∈ h.visits, w.task = task ∧ v = f w := by
  obtain ⟨w, hw, rfl⟩ := List.mem_map.1 hv
  by_cases ht : w.task = task
  · rw [if_pos ht]
    exact .inr ⟨w, hw, ht, rfl⟩
  · rw [if_neg ht]
    exact .inl ⟨hw, ht⟩

omit [DecidableEq κ] in
theorem mem_update_of_ne {f : Visit κ τ → Visit κ τ} (hv : v ∈ h.visits) (hne : v.task ≠ task) :
    v ∈ (h.update task f).visits := List.mem_map.2 ⟨v, hv, if_neg hne⟩

/-- Those who give up one after another end at their deadlines. -/
theorem visits_foldl_giveUp (target : Int) (due : List (Visit κ τ))
    (hsame : ∀ v ∈ due, ∀ u ∈ h.visits, u.task = v.task → u.deadline = v.deadline) :
    (due.foldl (fun h v => giveUp { h with now := v.deadline.getD target } v .timedOut) h).visits =
      h.visits.map fun u => if u.task ∈ due.map (·.task) then
        { u with stage := .ended .timedOut (u.deadline.getD target) } else u := by
  -- The deadlines stay while one after another gives up, so that the next hall is of the same kind.
  induction due generalizing h with
  | nil => simp
  | cons v due ih =>
    have hgave : (giveUp { h with now := v.deadline.getD target } v .timedOut).visits =
        h.visits.map fun u => if u.task = v.task then
          { u with stage := .ended .timedOut (v.deadline.getD target) } else u := rfl
    rw [List.foldl_cons, ih, hgave, List.map_map]
    · refine List.map_congr_left fun u hu => ?_
      have hdeadline := hsame v List.mem_cons_self u hu
      by_cases ht : u.task = v.task
      · simp [ht, hdeadline ht]
      · simp [ht]
    · intro w hw u hu ht
      rw [hgave] at hu
      obtain ⟨u', hu', rfl⟩ := List.mem_map.1 hu
      have hold := hsame w (List.mem_cons_of_mem _ hw) u' hu'
      split at ht
      · rename_i hv
        simpa [hv] using hold ht
      · rename_i hv
        simpa [hv] using hold ht

/-- Moving the clock ends the waits that are due, each at its deadline, and does nothing else. -/
theorem Sound.visits_advance (hh : h.Sound) (nanos : Int) :
    (h.advance nanos).visits = h.visits.map (Visit.lapse (h.now + nanos)) := by
  unfold advance
  dsimp only
  rw [visits_foldl_giveUp]
  · refine List.map_congr_left fun u hu => ?_
    have hdue : u.task ∈ (h.visits.filter (isDue (h.now + nanos))).map (·.task) ↔
        isDue (h.now + nanos) u = true := by
      constructor
      · intro hmem
        obtain ⟨w, hw, ht⟩ := List.mem_map.1 hmem
        obtain ⟨hw', hlate⟩ := List.mem_filter.1 hw
        rwa [← hh.eq_of_task hw' hu ht]
      · intro hlate
        exact List.mem_map_of_mem (List.mem_filter.2 ⟨hu, hlate⟩)
    unfold Visit.lapse
    by_cases hlate : isDue (h.now + nanos) u = true
    · rw [if_pos hlate, if_pos (hdue.2 hlate)]
    · rw [if_neg hlate, if_neg (fun hmem => hlate (hdue.1 hmem))]
  · intro v hv u hu ht
    rw [hh.eq_of_task hu (List.mem_filter.1 hv).1 ht]

/-! ## Between the commands -/

/-- What holds between the commands. -/
structure AtRest (h : Hall κ τ) (log : List (Admission κ τ)) : Prop where
  sound : h.Sound
  settled : h.Settled
  logged : h.Logged log
  /-- Nobody waits past the deadline. -/
  punctual : ∀ v ∈ h.visits, v.stage.isWaiting = true → ∀ d ∈ v.deadline, h.now < d

theorem atRest_empty : AtRest ({} : Hall κ τ) [] where
  sound := sound_empty
  settled := settled_empty
  logged := logged_empty
  punctual _ hv := absurd hv List.not_mem_nil

/-- Where somebody waits, somebody is inside. -/
theorem AtRest.attended (hr : h.AtRest log) (hv : v ∈ h.visits) (hwaits : v.stage.isWaiting = true) :
    ∃ u ∈ h.visits, u.key = v.key ∧ u.isInside = true := by
  have hpresent : v ∈ h.present v.key :=
    mem_present.2 ⟨hv, Visit.isPresent_of_isWaiting hwaits, rfl⟩
  obtain ⟨u, rest, hline⟩ := List.exists_cons_of_ne_nil (List.ne_nil_of_mem hpresent)
  have hu : u ∈ h.present v.key := hline ▸ List.mem_cons_self
  obtain ⟨hmem, hupresent, hkey⟩ := mem_present.1 hu
  have hholds : h.locks.holds u.key u.task = true := by
    rw [holds_iff, hr.sound.orderly.sound.holder?_eq_head?, hr.sound.line_eq, hkey, hline]
    rfl
  refine ⟨u, hmem, hkey, ?_⟩
  cases hstage : u.stage with
  | waiting =>
    have hnot := hr.settled u hmem (by simp [hstage, Stage.isWaiting])
    simp [hholds] at hnot
  | inside since => simp [Visit.isInside, hstage]
  | ended outcome time => simp [Visit.isPresent, hstage] at hupresent

/-- Whoever waits after settling has waited before. -/
theorem Logged.mem_of_mem_settle (hl : h.Logged log) (hh : h.Sound) (hv : v ∈ h.settle.visits)
    (hwaits : v.stage.isWaiting = true) : v ∈ h.visits := by
  rcases mem_settle hv with hmem | hentered
  · exact hmem
  · have hfits := ((Visit.fits_waiting hwaits).1 ((hl.settle hh).fits v hv)).1
    rw [List.map_append, List.mem_append] at hfits
    exact absurd (.inr hentered) hfits

omit [DecidableEq τ] in
theorem mem_come (hv : v ∈ (h.come task key timeout).visits) :
    v ∈ h.visits ∨ v.task = task ∧ v.arrived = h.now := by
  rcases List.mem_append.1 hv with hold | hnew
  · exact .inl hold
  · rw [List.mem_singleton.1 hnew]
    exact .inr ⟨rfl, rfl⟩

/-- A task inside leaves, and then all come in who can. -/
theorem AtRest.depart (hr : h.AtRest log) (hv : v ∈ h.visits) (hinside : v.isInside = true)
    {outcome : Outcome} (hout : outcome ≠ .timedOut) :
    (h.depart v outcome).settle.AtRest (log ++ (h.depart v outcome).entries) := by
  have hsound : (h.depart v outcome).Sound :=
    hr.sound.depart hv (hr.sound.inside v hv hinside) outcome
  have hlogged := hr.logged.depart hr.sound hv hinside hout
  obtain ⟨hleads, hsettled⟩ := hr.sound.leads_depart hv hinside outcome
  refine ⟨hleads.sound hr.sound, hsettled, hlogged.settle hsound, fun u hu hwaits d hd => ?_⟩
  have hmem := hlogged.mem_of_mem_settle hsound hu hwaits
  rw [settle_now]
  rcases mem_update hmem with ⟨hold, -⟩ | ⟨w, -, -, rfl⟩
  · exact hr.punctual u hold hwaits d hd
  · simp [Stage.isWaiting] at hwaits

/-- Whoever waits may be cancelled. -/
theorem AtRest.giveUp (hr : h.AtRest log) (hv : v ∈ h.visits) (hwaits : v.stage.isWaiting = true) :
    (h.giveUp v .cancelled).AtRest log where
  sound := (hr.sound.leads_giveUp hr.settled hv hwaits .cancelled).sound hr.sound
  settled := hr.sound.settled_giveUp hr.settled hv hwaits .cancelled
  logged := hr.logged.giveUp_cancelled hr.sound hv (hr.punctual v hv hwaits)
  punctual u hu huwaits := hr.punctual u (mem_giveUp hu huwaits).1 huwaits

theorem AtRest.tell (hr : h.AtRest log) (task : τ) (exit : Exit) :
    (h.tell task exit).AtRest log where
  sound := hr.sound.tell task exit
  settled := hr.settled.tell task exit
  logged := hr.logged.tell task exit
  punctual u hu huwaits := by
    rcases mem_update hu with ⟨hold, -⟩ | ⟨w, hw, -, rfl⟩
    · exact hr.punctual u hold huwaits
    · exact hr.punctual w hw huwaits

/-- A new task stays, unless it waits although its deadline has come. -/
theorem acquire_cases (hg : (h.come task key timeout).settle.Sound) :
    (∃ w ∈ (h.come task key timeout).settle.visits, w.task = task ∧ w.stage.isWaiting = true ∧
      (∃ d ∈ w.deadline, d ≤ h.now) ∧
      h.acquire task key timeout = (h.come task key timeout).settle.giveUp w .timedOut) ∨
    h.acquire task key timeout = (h.come task key timeout).settle ∧
      ∀ w ∈ (h.come task key timeout).settle.visits, w.task = task → w.stage.isWaiting = true →
        ∀ d ∈ w.deadline, h.now < d := by
  have hnow : (h.come task key timeout).settle.now = h.now := settle_now _
  have hacquire : h.acquire task key timeout =
      match (h.come task key timeout).settle.visit? task with
      | some w =>
        if w.stage.isWaiting && decide (∃ d ∈ w.deadline, d ≤ h.now) then
          (h.come task key timeout).settle.giveUp w .timedOut
        else (h.come task key timeout).settle
      | none => (h.come task key timeout).settle := by
    rw [← hnow]
    rfl
  rw [hacquire]
  cases hvisit : (h.come task key timeout).settle.visit? task with
  | none =>
    refine .inr ⟨rfl, fun w hw ht => ?_⟩
    have hfound := hg.visit?_of_mem hw
    rw [ht, hvisit] at hfound
    exact absurd hfound (by simp)
  | some w =>
    obtain ⟨hw, ht⟩ := mem_of_visit? hvisit
    dsimp only
    split
    · rename_i hlate
      simp only [Bool.and_eq_true, decide_eq_true_eq] at hlate
      exact .inl ⟨w, hw, ht, hlate.1, hlate.2, rfl⟩
    · rename_i hearly
      refine .inr ⟨rfl, fun u hu hut hwaits d hd => ?_⟩
      obtain rfl := hg.eq_of_task hu hw (hut.trans ht.symm)
      by_contra hle
      exact hearly (by simpa [hwaits] using ⟨d, hd, Int.not_lt.1 hle⟩)

/-- A new task asks for a lock.  If it does not get it at once, a timeout that is not positive ends
its waiting at once. -/
theorem AtRest.acquire (hr : h.AtRest log) (hnew : h.visit? task = none) (key : κ)
    (timeout : Option Int) :
    (h.acquire task key timeout).AtRest (log ++ (h.come task key timeout).entries) := by
  have hcome := hr.sound.come hnew key timeout
  have hsound : (h.come task key timeout).settle.Sound := hcome.leads_settle.sound hcome
  have hbook := hr.logged.come hnew key timeout
  have hlogged := hbook.settle hcome
  have hnow : (h.come task key timeout).settle.now = h.now := settle_now _
  obtain ⟨hleads, hset⟩ := hr.sound.leads_acquire hnew key timeout
  have hothers : ∀ u ∈ (h.come task key timeout).settle.visits, u.stage.isWaiting = true →
      u.task ≠ task → ∀ d ∈ u.deadline, h.now < d := by
    intro u hu hwaits hne
    rcases mem_come (hbook.mem_of_mem_settle hcome hu hwaits) with hmem | ⟨htask, -⟩
    · exact hr.punctual u hmem hwaits
    · exact absurd htask hne
  refine ⟨hleads.sound hr.sound, hset, ?_, ?_⟩
  · rcases acquire_cases hsound with ⟨w, hw, -, hwaits, ⟨d, hd, hlate⟩, heq⟩ | ⟨heq, -⟩
    · rw [heq]
      apply hlogged.giveUp_timedOut hsound hw hwaits
      have htime := ((Visit.fits_waiting hwaits).1 (hlogged.fits w hw)).2 d hd
      rw [hnow] at htime ⊢
      have hsame : d = h.now := by omega
      exact hsame ▸ hd
    · rw [heq]
      exact hlogged
  · rcases acquire_cases hsound with ⟨w, hw, ht, -, -, heq⟩ | ⟨heq, hearly⟩
    · rw [heq]
      intro u hu huwaits d hd
      obtain ⟨hmem, hne⟩ := mem_giveUp hu huwaits
      exact hnow ▸ hothers u hmem huwaits (ht ▸ hne) d hd
    · rw [heq]
      intro u hu huwaits d hd
      rw [hnow]
      by_cases ht : u.task = task
      · exact hearly u hu ht huwaits d hd
      · exact hothers u hu huwaits ht d hd

/-- The clock moves. -/
theorem AtRest.advance (hr : h.AtRest log) (nanos : Int) : (h.advance nanos).AtRest log := by
  have hvisits := hr.sound.visits_advance nanos
  obtain ⟨hleads, hset⟩ := hr.sound.leads_advance hr.settled nanos
  have hearly : ∀ v ∈ h.visits, isDue (h.now + nanos) v = false → v.stage.isWaiting = true →
      ∀ d ∈ v.deadline, h.now + nanos < d := by
    intro v _ hdue hwaits d hd
    by_contra hle
    have hlate : isDue (h.now + nanos) v = true :=
      Visit.isDue_eq_true_iff.2 ⟨hwaits, d, hd, Int.not_lt.1 hle⟩
    simp [hlate] at hdue
  refine ⟨hleads.sound hr.sound, hset, ?_, ?_⟩
  · refine hr.logged.map hvisits (Visit.call_lapse _) (fun v _ habsent => ?_) fun v hv => ?_
    · rwa [Visit.lapse_of_not_isWaiting (Visit.not_isWaiting_of_not_isPresent habsent)]
    · unfold Visit.lapse
      split
      · rename_i hdue
        obtain ⟨hwaits, d, hd, -⟩ := Visit.isDue_eq_true_iff.1 hdue
        have hfresh := ((Visit.fits_waiting hwaits).1 (hr.logged.fits v hv)).1
        refine ⟨hfresh, ?_⟩
        rw [show v.deadline = some d from hd]
        rfl
      · rename_i hdue
        refine (hr.logged.fits v hv).clock fun hwaits d hd => .inl ?_
        exact hearly v hv (by simpa using hdue) hwaits d hd
  · rw [hvisits]
    intro u hu huwaits d hd
    obtain ⟨v, hv, rfl⟩ := List.mem_map.1 hu
    unfold Visit.lapse at huwaits hd
    split at huwaits
    · simp [Stage.isWaiting] at huwaits
    · rename_i hdue
      rw [if_neg hdue] at hd
      exact hearly v hv (by simpa using hdue) huwaits d hd

/-- Every command keeps a hall at rest, and those who come in are written down. -/
theorem AtRest.obey (hr : h.AtRest log) (command : Command κ τ) :
    (h.obey command).AtRest (log ++ h.admits command) := by
  have hob := h.obeys command
  generalize h.obey command = h' at hob ⊢
  generalize h.admits command = entered at hob ⊢
  cases hob with
  | idle => simpa using hr
  | acquire hnew => exact hr.acquire hnew _ _
  | depart hv hinside hout => exact hr.depart hv hinside hout
  | giveUp hv hwaits => simpa using hr.giveUp hv hwaits
  | tell hv hwaits => simpa using hr.tell _ _
  | advance => simpa using hr.advance _

/-- What holds at rest holds after all commands. -/
theorem AtRest.obeyAll (hr : h.AtRest log) (commands : List (Command κ τ)) :
    (h.obeyAll commands).AtRest (log ++ h.admissions commands) := by
  induction commands generalizing h log with
  | nil => simpa [admissions, Hall.obeyAll] using hr
  | cons command commands ih =>
    rw [admissions, ← List.append_assoc]
    exact ih (hr.obey command)

end Hall

end PuzzleContest.Lock
