import PuzzleContest.Proofs.Punctual

/-!
# Fair waiting at keyed locks

Whatever is asked of a hall, a key that somebody waits for has somebody inside; tasks come in in the
order in which they asked, but for those who gave up; and waiting ends exactly at the deadline, never
later and never for one who has come in.

Main definitions:

- `Hall.Command.nanos`: the time that passes by a command.
- `Hall.Fair`: fairness, with everything that a task can rely on.

Main results:

- `Hall.AtRest.map_call_obeyAll`: the visits are those who asked, in this order.
- `Hall.AtRest.ended_obeyAll`: whoever has come to an end stays there.
- `Hall.now_obey`: the clock goes by what is asked for.
- `Hall.AtRest.departure`: who stops waiting lets nobody in.
- `Hall.fair_obeyAll`: all runs are fair.
-/

namespace PuzzleContest.Lock

variable {κ τ : Type}

/-- Whether a visit was cancelled or came to its deadline. -/
def Visit.gaveUp (v : Visit κ τ) : Bool :=
  match v.stage with
  | .ended .cancelled _ => true
  | .ended .timedOut _ => true
  | _ => false

namespace Hall

variable [DecidableEq κ] [DecidableEq τ] {h : Hall κ τ} {u v : Visit κ τ} {task : τ} {key : κ}
variable {timeout : Option Int} {log : List (Admission κ τ)}

/-! ## Calls -/

theorem map_call_letIn (h : Hall κ τ) (v : Visit κ τ) :
    (h.letIn v).visits.map Visit.call = h.visits.map Visit.call := by
  obtain ⟨f, hvisits, hcall⟩ := visits_letIn h v
  rw [hvisits]
  exact map_call_update hcall

theorem map_call_settle (h : Hall κ τ) :
    h.settle.visits.map Visit.call = h.visits.map Visit.call := by
  fun_induction Hall.settle h with
  | case1 h hnone => rfl
  | case2 h v hv ih => rw [ih, map_call_letIn]

omit [DecidableEq κ] in
theorem map_call_finish (h : Hall κ τ) (task : τ) (outcome : Outcome) :
    (h.finish task outcome).visits.map Visit.call = h.visits.map Visit.call :=
  map_call_update fun _ => rfl

theorem acquire_call (hh : h.Sound) (hnew : h.visit? task = none) :
    (h.acquire task key timeout).visits.map Visit.call = h.visits.map Visit.call ++
      (h.call? (.acquire task key timeout)).toList := by
  have hsettled : (h.come task key timeout).settle.visits.map Visit.call =
      h.visits.map Visit.call ++ (h.call? (.acquire task key timeout)).toList := by
    rw [map_call_settle]
    simp [Hall.come, call?, hnew, Visit.call]
  have hcome := hh.come hnew key timeout
  rcases acquire_cases (hcome.leads_settle.sound hcome) with ⟨w, -, -, -, -, heq⟩ | ⟨heq, -⟩
  · rw [heq]
    exact (map_call_finish _ _ _).trans hsettled
  · rw [heq]
    exact hsettled

/-- The visits are those who asked for a lock, in this order. -/
theorem Sound.map_call_obey (hh : h.Sound) (command : Command κ τ) :
    (h.obey command).visits.map Visit.call =
      h.visits.map Visit.call ++ (h.call? command).toList := by
  have hob := h.obeys command
  generalize h.obey command = h' at hob ⊢
  generalize h.admits command = entered at hob
  cases hob with
  | idle hcall => simp [hcall]
  | acquire hnew => exact acquire_call hh hnew
  | depart hv hinside hout hcall =>
    rw [hcall, map_call_settle, Option.toList_none, List.append_nil]
    exact map_call_finish _ _ _
  | giveUp hv hwaits hcall =>
    rw [hcall, Option.toList_none, List.append_nil]
    exact map_call_finish _ _ _
  | tell hv hwaits hcall =>
    rw [hcall, Option.toList_none, List.append_nil]
    exact map_call_update fun _ => rfl
  | advance =>
    rw [hh.visits_advance, List.map_map]
    simpa [call?] using fun v _ => Visit.call_lapse _ v

theorem AtRest.map_call_obeyAll (hr : h.AtRest log) (commands : List (Command κ τ)) :
    (h.obeyAll commands).visits.map Visit.call =
      h.visits.map Visit.call ++ h.calls commands := by
  induction commands generalizing h log with
  | nil => simp [calls, Hall.obeyAll]
  | cons command commands ih =>
    have hrest := ih (hr.obey command)
    rw [hr.sound.map_call_obey, List.append_assoc] at hrest
    exact hrest

/-! ## Visits that have ended -/

/-- A visit that has ended is not concerned when another one changes. -/
theorem Sound.mem_update_of_absent (hh : h.Sound) {f : Visit κ τ → Visit κ τ} (hu : u ∈ h.visits)
    (hpresent : u.isPresent = true) (hv : v ∈ h.visits) (hended : v.isPresent = false) :
    v ∈ (h.update u.task f).visits := by
  apply mem_update_of_ne hv
  intro ht
  obtain rfl := hh.eq_of_task hv hu ht
  simp [hpresent] at hended

/-- Settling lets in nobody whose visit has ended. -/
theorem Sound.ended_settle (hh : h.Sound) (hv : v ∈ h.visits) (hended : v.isPresent = false) :
    v ∈ h.settle.visits ∧ v.task ∉ h.entries.map (·.task) := by
  fun_induction Hall.settle h with
  | case1 h hnone =>
    rw [entries_of_none hnone]
    exact ⟨hv, List.not_mem_nil⟩
  | case2 h w hw ih =>
    obtain ⟨hmem, hwaits, -⟩ := mem_of_admissible? hw
    obtain ⟨f, hvisits, -⟩ := visits_letIn h w
    have hkept : v ∈ (h.letIn w).visits := by
      rw [hvisits]
      exact hh.mem_update_of_absent hmem (Visit.isPresent_of_isWaiting hwaits) hv hended
    have hne : v.task ≠ w.task := by
      intro ht
      obtain rfl := hh.eq_of_task hv hmem ht
      simp [Visit.isPresent_of_isWaiting hwaits] at hended
    obtain ⟨hthere, hnot⟩ := ih ((hh.leads_letIn hw).sound hh) hkept
    refine ⟨hthere, ?_⟩
    rw [entries_of_some hw, List.map_cons, List.mem_cons, not_or]
    exact ⟨hne, hnot⟩

/-- A visit that has ended stays as it is, and its task does not come in by a command. -/
theorem AtRest.ended_obey (hr : h.AtRest log) (hv : v ∈ h.visits) (hended : v.isPresent = false)
    (command : Command κ τ) :
    v ∈ (h.obey command).visits ∧ v.task ∉ (h.admits command).map (·.task) := by
  have hob := h.obeys command
  generalize h.obey command = h' at hob ⊢
  generalize h.admits command = entered at hob ⊢
  cases hob with
  | idle => exact ⟨hv, List.not_mem_nil⟩
  | @acquire task key timeout hnew =>
    have hcome := hr.sound.come hnew key timeout
    have hsound := hcome.leads_settle.sound hcome
    obtain ⟨hthere, hnot⟩ := hcome.ended_settle (List.mem_append_left _ hv) hended
    refine ⟨?_, hnot⟩
    rcases acquire_cases hsound with ⟨w, hw, -, hwaits, -, heq⟩ | ⟨heq, -⟩
    · rw [heq]
      exact hsound.mem_update_of_absent hw (Visit.isPresent_of_isWaiting hwaits) hthere hended
    · rw [heq]
      exact hthere
  | @depart _ w outcome hw hinside =>
    have hsound := hr.sound.depart hw (hr.sound.inside w hw hinside) outcome
    apply hsound.ended_settle _ hended
    exact hr.sound.mem_update_of_absent hw (Visit.isPresent_of_isInside hinside) hv hended
  | giveUp hw hwaits =>
    refine ⟨?_, List.not_mem_nil⟩
    exact hr.sound.mem_update_of_absent hw (Visit.isPresent_of_isWaiting hwaits) hv hended
  | tell hw hwaits =>
    refine ⟨?_, List.not_mem_nil⟩
    exact hr.sound.mem_update_of_absent hw (Visit.isPresent_of_isWaiting hwaits) hv hended
  | advance =>
    refine ⟨?_, List.not_mem_nil⟩
    rw [hr.sound.visits_advance]
    refine List.mem_map.2 ⟨v, hv, ?_⟩
    exact Visit.lapse_of_not_isWaiting (Visit.not_isWaiting_of_not_isPresent hended)

/-- A visit that has ended stays as it is for ever, and its task never comes in. -/
theorem AtRest.ended_obeyAll (hr : h.AtRest log) (hv : v ∈ h.visits) (hended : v.isPresent = false)
    (later : List (Command κ τ)) :
    v ∈ (h.obeyAll later).visits ∧ v.task ∉ (h.admissions later).map (·.task) := by
  induction later generalizing h log with
  | nil => exact ⟨hv, List.not_mem_nil⟩
  | cons command later ih =>
    obtain ⟨hmem, hnot⟩ := hr.ended_obey hv hended command
    obtain ⟨hthere, hnever⟩ := ih (hr.obey command) hmem
    refine ⟨hthere, ?_⟩
    rw [admissions, List.map_append, List.mem_append, not_or]
    exact ⟨hnot, hnever⟩

/-! ## Giving up -/

/-- Only a newcomer can come in by asking for a lock. -/
theorem AtRest.admissible?_come (hr : h.AtRest log)
    (hv : (h.come task key timeout).admissible? = some v) : v.task = task := by
  obtain ⟨hmem, hwaits, hholds⟩ := mem_of_admissible? hv
  rcases mem_come hmem with hold | ⟨ht, -⟩
  · have huses := hr.sound.uses hold (Visit.isPresent_of_isWaiting hwaits)
    rw [← Registry.mem_line_iff] at huses
    obtain ⟨t, rest, hline⟩ := List.exists_cons_of_ne_nil (List.ne_nil_of_mem huses)
    have hholder : h.locks.holder? v.key = some t := by
      rw [hr.sound.orderly.sound.holder?_eq_head?, hline, List.head?_cons]
    have hkept : (h.locks.enter key task).holder? v.key = some t :=
      Registry.holder?_enter hr.sound.orderly.sound task hholder
    have hnot := hr.settled v hold hwaits
    have hsame : t = v.task := Option.some.inj (hkept.symm.trans (holds_iff.1 hholds))
    rw [hsame] at hholder
    rw [holds_iff.2 hholder] at hnot
    exact absurd hnot (by simp)
  · exact ht

/-- If a newcomer does not come in at once, then nobody does. -/
theorem AtRest.entries_come (hr : h.AtRest log)
    (hnot : task ∉ (h.come task key timeout).entries.map (·.task)) :
    (h.come task key timeout).entries = [] ∧
      (h.come task key timeout).settle = h.come task key timeout := by
  cases hadm : (h.come task key timeout).admissible? with
  | none =>
    refine ⟨entries_of_none hadm, ?_⟩
    rw [Hall.settle]
    split
    · rfl
    · simp_all
  | some v =>
    have ht := hr.admissible?_come hadm
    rw [entries_of_some hadm, List.map_cons, List.mem_cons, not_or] at hnot
    exact absurd ht.symm hnot.1

/-- Who stops waiting without having come in lets nobody in, and whoever is inside stays there. -/
theorem AtRest.departure (hr : h.AtRest log) {command : Command κ τ}
    (hv : v ∈ (h.obey command).visits) (hnew : v ∉ h.visits) (hgave : v.gaveUp = true)
    (hnot : v.task ∉ (log ++ h.admits command).map (·.task)) :
    h.admits command = [] ∧
      ∀ u ∈ h.visits, u.isInside = true → u ∈ (h.obey command).visits := by
  rw [List.map_append, List.mem_append, not_or] at hnot
  have hob := h.obeys command
  generalize h.obey command = h' at hob hv ⊢
  generalize h.admits command = entered at hob hnot ⊢
  cases hob with
  | idle => exact absurd hv hnew
  | @acquire task key timeout hfresh =>
    have hcome := hr.sound.come hfresh key timeout
    have hsound := hcome.leads_settle.sound hcome
    -- Whoever has changed by a call is the caller, or has come in, which the caller alone can.
    have hv' : v ∈ (h.come task key timeout).settle.visits ∨ v.task = task := by
      rcases acquire_cases hsound with ⟨w, -, ht, -, -, heq⟩ | ⟨heq, -⟩
      · rw [heq] at hv
        rcases mem_update hv with ⟨hold, -⟩ | ⟨w', -, ht', rfl⟩
        · exact .inl hold
        · exact .inr (ht'.trans ht)
      · exact .inl (heq ▸ hv)
    have ht : v.task = task := by
      rcases hv' with hsettled | ht
      · rcases mem_settle hsettled with hmem | hentered
        · rcases mem_come hmem with hold | ⟨ht, -⟩
          · exact absurd hold hnew
          · exact ht
        · exact absurd hentered hnot.2
      · exact ht
    obtain ⟨hnil, hsame⟩ := hr.entries_come (ht ▸ hnot.2)
    refine ⟨hnil, fun u hu huin => ?_⟩
    have hthere : u ∈ (h.come task key timeout).settle.visits := by
      rw [hsame]
      exact List.mem_append_left _ hu
    have hne : u.task ≠ task := by
      simp only [visit?, List.find?_eq_none, decide_eq_true_eq] at hfresh
      exact hfresh u hu
    rcases acquire_cases hsound with ⟨w, -, hwt, -, -, heq⟩ | ⟨heq, -⟩
    · rw [heq]
      exact mem_update_of_ne hthere (hwt ▸ hne)
    · rw [heq]
      exact hthere
  | @depart _ w outcome hw hinside hout =>
    rcases mem_settle hv with hmem | hentered
    · rcases mem_update hmem with ⟨hold, -⟩ | ⟨w', hw', ht, rfl⟩
      · exact absurd hold hnew
      · obtain rfl := hr.sound.eq_of_task hw' hw ht
        exact absurd ((hr.logged.fits w' hw').mem_of_isInside hinside) hnot.1
    · exact absurd hentered hnot.2
  | @giveUp _ w hw hwaits =>
    refine ⟨rfl, fun u hu huin => mem_update_of_ne hu fun ht => ?_⟩
    obtain rfl := hr.sound.eq_of_task hu hw ht
    simp [Visit.not_isWaiting_of_isInside huin] at hwaits
  | @tell _ w exit hw hwaits =>
    rcases mem_update hv with ⟨hold, -⟩ | ⟨w', hw', ht, rfl⟩
    · exact absurd hold hnew
    · obtain rfl := hr.sound.eq_of_task hw' hw ht
      have hstage := Visit.stage_of_isWaiting hwaits
      simp [Visit.gaveUp, hstage] at hgave
  | @advance nanos =>
    refine ⟨rfl, fun u hu huin => ?_⟩
    rw [hr.sound.visits_advance]
    refine List.mem_map.2 ⟨u, hu, ?_⟩
    exact Visit.lapse_of_not_isWaiting (Visit.not_isWaiting_of_isInside huin)

/-! ## Fairness -/

/-- The time that passes by a command. -/
def Command.nanos : Command κ τ → Int
  | .advance nanos => nanos
  | _ => 0

theorem now_dismiss (h : Hall κ τ) (task : τ) (exit : Exit) : (h.dismiss task exit).now = h.now := by
  unfold dismiss
  split
  · rfl
  · split
    · rfl
    · exact settle_now _
    · rfl

theorem now_cancel (h : Hall κ τ) (task : τ) : (h.cancel task).now = h.now := by
  unfold cancel
  split
  · rfl
  · split
    · rfl
    · exact settle_now _
    · rfl

theorem now_acquire (h : Hall κ τ) (task : τ) (key : κ) (timeout : Option Int) :
    (h.acquire task key timeout).now = h.now := by
  have hthere : (h.come task key timeout).settle.now = h.now := settle_now _
  simp only [acquire]
  split
  · split <;> exact hthere
  · exact hthere

/-- The clock goes by what is asked for, and by nothing else. -/
theorem now_obey (h : Hall κ τ) (command : Command κ τ) :
    (h.obey command).now = h.now + command.nanos := by
  cases command with
  | acquire task key timeout =>
    simp only [obey, Command.nanos, Int.add_zero]
    split
    · rfl
    · exact h.now_acquire task key timeout
  | dismiss task exit => exact (h.now_dismiss task exit).trans (Int.add_zero _).symm
  | cancel task => exact (h.now_cancel task).trans (Int.add_zero _).symm
  | advance nanos => rfl

/-- What all those who ask for locks can rely on, given who asked and who came in. -/
structure Fair (h : Hall κ τ) (calls : List (Call κ τ)) (admissions : List (Admission κ τ)) :
    Prop where
  /-- The visits are those who asked, in this order. -/
  calls_eq : h.visits.map Visit.call = calls
  /-- Whoever has come in had asked for this key. -/
  asked : ∀ a ∈ admissions, ∃ v ∈ h.visits, v.task = a.task ∧ v.key = a.key
  /-- Whoever is inside, or has left the block, has come in. -/
  inside : ∀ v ∈ h.visits, ∀ since, v.stage = .inside since → ⟨v.task, v.key, since⟩ ∈ admissions
  left : ∀ v ∈ h.visits, ∀ time, v.stage = .ended .released time ∨ v.stage = .ended .failed time →
    v.task ∈ admissions.map (·.task)
  /-- Where somebody waits, somebody is inside. -/
  attended : ∀ v ∈ h.visits, v.stage = .waiting → ∃ u ∈ h.visits, u.key = v.key ∧ u.isInside = true
  /-- Tasks come into a block in the order in which they asked. -/
  inOrder : admissions.Pairwise fun a b =>
    a.key = b.key → [a.task, b.task].Sublist (calls.map (·.task))
  /-- Only those who gave up are skipped. -/
  skips : ∀ u v, [u, v].Sublist h.visits → u.key = v.key → v.task ∈ admissions.map (·.task) →
    u.task ∈ admissions.map (·.task) ∨ u.gaveUp = true
  /-- The clock goes on by as much as it is told to, and by nothing else. -/
  clock : ∀ command : Command κ τ, (h.obey command).now = h.now + command.nanos
  /-- Nobody waits past the deadline. -/
  punctual : ∀ v ∈ h.visits, v.stage = .waiting →
    v.task ∉ admissions.map (·.task) ∧ ∀ d ∈ v.deadline, h.now < d
  /-- Once the deadline has come, the task has come in before it, or at once when it asked; or it was
  cancelled before; or its waiting has ended at exactly this time. -/
  onTime : ∀ v ∈ h.visits, ∀ d ∈ v.deadline, d ≤ h.now →
    (∃ a ∈ admissions, a.task = v.task ∧ (a.time < d ∨ a.time = d ∧ d = v.arrived)) ∨
      (∃ time < d, v.stage = .ended .cancelled time) ∨ v.stage = .ended .timedOut d
  /-- Whoever has come in never times out, and nobody times out but at the deadline. -/
  timedOut : ∀ v ∈ h.visits, ∀ time, v.stage = .ended .timedOut time →
    v.task ∉ admissions.map (·.task) ∧ v.deadline = some time
  /-- Whoever has come to an end stays there, and never comes in. -/
  final : ∀ v ∈ h.visits, v.isPresent = false → ∀ later : List (Command κ τ),
    v ∈ (h.obeyAll later).visits ∧ v.task ∉ (h.admissions later).map (·.task)
  /-- Who stops waiting without having come in lets nobody in, and whoever is inside stays there. -/
  departure : ∀ command : Command κ τ, ∀ v ∈ (h.obey command).visits, v ∉ h.visits →
    v.gaveUp = true → v.task ∉ (admissions ++ h.admits command).map (·.task) →
    h.admits command = [] ∧ ∀ u ∈ h.visits, u.isInside = true → u ∈ (h.obey command).visits

omit [DecidableEq κ] [DecidableEq τ] in
/-- Nobody is left behind but those who gave up. -/
theorem Logged.skips (hl : h.Logged log) (huv : [u, v].Sublist h.visits) (hkey : u.key = v.key)
    (hin : v.task ∈ log.map (·.task)) : u.task ∈ log.map (·.task) ∨ u.gaveUp = true := by
  have hended := hl.behind u v huv hkey hin
  have hfits := hl.fits u (mem_of_pair huv).1
  unfold Visit.Fits at hfits
  cases hstage : u.stage with
  | waiting => simp [Visit.isPresent, hstage] at hended
  | inside since => simp [Visit.isPresent, hstage] at hended
  | ended outcome time =>
    simp only [hstage] at hfits
    cases outcome with
    | released => exact .inl hfits
    | failed => exact .inl hfits
    | cancelled => exact .inr (by simp [Visit.gaveUp, hstage])
    | timedOut => exact .inr (by simp [Visit.gaveUp, hstage])

/-- Once the deadline has come, waiting has ended. -/
theorem AtRest.onTime (hr : h.AtRest log) (hv : v ∈ h.visits) {d : Int} (hd : d ∈ v.deadline)
    (hpast : d ≤ h.now) :
    (∃ a ∈ log, a.task = v.task ∧ (a.time < d ∨ a.time = d ∧ d = v.arrived)) ∨
      (∃ time < d, v.stage = .ended .cancelled time) ∨ v.stage = .ended .timedOut d := by
  by_cases hin : v.task ∈ log.map (·.task)
  · obtain ⟨a, ha, htask⟩ := List.mem_map.1 hin
    obtain ⟨w, hw, hwtask, -, htime⟩ := hr.logged.known a ha
    obtain rfl := hr.sound.eq_of_task hw hv (hwtask.trans htask)
    exact .inl ⟨a, ha, htask, htime d hd⟩
  · refine .inr ?_
    have hfits := hr.logged.fits v hv
    unfold Visit.Fits at hfits
    cases hstage : v.stage with
    | waiting =>
      have hearly := hr.punctual v hv (by simp [hstage, Stage.isWaiting]) d hd
      omega
    | inside since =>
      simp only [hstage] at hfits
      exact absurd (List.mem_map_of_mem hfits) hin
    | ended outcome time =>
      simp only [hstage] at hfits
      cases outcome with
      | released => exact absurd hfits hin
      | failed => exact absurd hfits hin
      | cancelled => exact .inl ⟨time, hfits.resolve_left hin d hd, rfl⟩
      | timedOut =>
        have hsame : some time = some d := hfits.2.symm.trans hd
        exact .inr (by rw [Option.some.inj hsame])

/-- A hall at rest is fair to all who have asked. -/
theorem AtRest.fair (hr : h.AtRest log) : h.Fair (h.visits.map Visit.call) log where
  calls_eq := rfl
  asked a ha := by
    obtain ⟨v, hv, htask, hkey, -⟩ := hr.logged.known a ha
    exact ⟨v, hv, htask, hkey⟩
  inside v hv since hstage := by
    have hfits := hr.logged.fits v hv
    rwa [Visit.Fits, hstage] at hfits
  left v hv time hstage := by
    have hfits := hr.logged.fits v hv
    rcases hstage with hstage | hstage
    · rwa [Visit.Fits, hstage] at hfits
    · rwa [Visit.Fits, hstage] at hfits
  attended v hv hstage := hr.attended hv (by rw [hstage, Stage.isWaiting])
  inOrder := by
    rw [List.map_map]
    exact hr.logged.ordered
  skips _ _ huv hkey hin := hr.logged.skips huv hkey hin
  clock := h.now_obey
  punctual v hv hstage := by
    have hwaits : v.stage.isWaiting = true := by rw [hstage, Stage.isWaiting]
    exact ⟨((Visit.fits_waiting hwaits).1 (hr.logged.fits v hv)).1, hr.punctual v hv hwaits⟩
  onTime _ hv _ hd hpast := hr.onTime hv hd hpast
  timedOut v hv time hstage := by
    have hfits := hr.logged.fits v hv
    rwa [Visit.Fits, hstage] at hfits
  final _ hv hended later := hr.ended_obeyAll hv hended later
  departure _ _ hv hnew hgave hnot := hr.departure hv hnew hgave hnot

/-- Whatever is asked of a hall, it is fair to all who have asked for a lock. -/
theorem fair_obeyAll (commands : List (Command κ τ)) :
    (({} : Hall κ τ).obeyAll commands).Fair (calls {} commands) (admissions {} commands) := by
  have hrest : (({} : Hall κ τ).obeyAll commands).AtRest (admissions {} commands) :=
    atRest_empty.obeyAll commands
  have hcalls : (({} : Hall κ τ).obeyAll commands).visits.map Visit.call = calls {} commands :=
    atRest_empty.map_call_obeyAll commands
  exact hcalls ▸ hrest.fair

end Hall

end PuzzleContest.Lock
