import PuzzleContest.Proofs.Command

/-!
# Who comes in, and when

Whoever goes inside a block of the keyed locks is written down, with the key and the time.  The book
can be kept because tasks come in one at a time: each is the first of those who are still present for
the key, so that all who asked before have come to their end.

Main definitions:

- `Hall.entries`: those who come in when a hall settles, in this order.
- `Visit.InTime`: a time up to which a visit may still come in.
- `Hall.Logged`: a book tells who has come in.

Main results:

- `Hall.Sound.first`: whoever is handed the lock has nobody in front who is still present.
- `Hall.Logged.goIn`, `Hall.Logged.depart`, `Hall.Logged.tell`: what a book has to say about one move.
- `Hall.Logged.settle`: letting in all who can get in keeps the book.
- `Hall.mem_settle`: settling changes only those who come in.
-/

namespace PuzzleContest.Lock

variable {κ τ : Type}

/-- A task goes inside the block of a key. -/
structure Admission (κ τ : Type) where
  task : τ
  key : κ
  time : Int
deriving DecidableEq, Repr

/-- A task asks for the lock of a key. -/
structure Call (κ τ : Type) where
  task : τ
  key : κ
  time : Int
  /-- When waiting ends, if it does. -/
  deadline : Option Int
deriving DecidableEq, Repr

namespace Visit

/-- The call that a visit began with. -/
def call (v : Visit κ τ) : Call κ τ := ⟨v.task, v.key, v.arrived, v.deadline⟩

/-- A visit may come in at a time before its deadline, and at the deadline only if it came then. -/
def InTime (v : Visit κ τ) (time : Int) : Prop :=
  ∀ d ∈ v.deadline, time < d ∨ time = d ∧ d = v.arrived

/-- What a book says about a visit agrees with the stage of the visit. -/
def Fits (now : Int) (log : List (Admission κ τ)) (v : Visit κ τ) : Prop :=
  match v.stage with
  | .waiting => v.task ∉ log.map (·.task) ∧ v.InTime now
  | .inside since => ⟨v.task, v.key, since⟩ ∈ log
  | .ended .timedOut time => v.task ∉ log.map (·.task) ∧ v.deadline = some time
  | .ended .cancelled time => v.task ∈ log.map (·.task) ∨ ∀ d ∈ v.deadline, time < d
  | .ended _ _ => v.task ∈ log.map (·.task)

variable {v : Visit κ τ} {now : Int} {log : List (Admission κ τ)}

theorem stage_of_isWaiting (h : v.stage.isWaiting = true) : v.stage = .waiting := by
  cases hstage : v.stage with
  | waiting => rfl
  | inside since => simp [hstage, Stage.isWaiting] at h
  | ended outcome time => simp [hstage, Stage.isWaiting] at h

theorem fits_waiting (h : v.stage.isWaiting = true) :
    v.Fits now log ↔ v.task ∉ log.map (·.task) ∧ v.InTime now := by
  rw [Fits, stage_of_isWaiting h]

theorem stage_of_isInside (h : v.isInside = true) : ∃ since, v.stage = .inside since := by
  cases hstage : v.stage with
  | waiting => simp [hstage, isInside] at h
  | inside since => exact ⟨since, rfl⟩
  | ended outcome time => simp [hstage, isInside] at h

theorem Fits.mem_of_isInside (hf : v.Fits now log) (h : v.isInside = true) :
    v.task ∈ log.map (·.task) := by
  obtain ⟨since, hstage⟩ := stage_of_isInside h
  rw [Fits, hstage] at hf
  exact List.mem_map_of_mem hf

/-- An entry for another task does not concern a visit. -/
theorem Fits.extend (hf : v.Fits now log) {a : Admission κ τ} (ha : a.task ≠ v.task) :
    v.Fits now (log ++ [a]) := by
  have hmem : v.task ∈ (log ++ [a]).map (·.task) ↔ v.task ∈ log.map (·.task) := by
    simp [Ne.symm ha]
  unfold Fits at hf ⊢
  cases hstage : v.stage with
  | waiting =>
    simp only [hstage] at hf
    exact ⟨fun h => hf.1 (hmem.1 h), hf.2⟩
  | inside since =>
    simp only [hstage] at hf
    exact List.mem_append_left _ hf
  | ended outcome time =>
    simp only [hstage] at hf
    cases outcome with
    | released => exact hmem.2 hf
    | failed => exact hmem.2 hf
    | cancelled => exact hf.imp_left hmem.2
    | timedOut => exact ⟨fun h => hf.1 (hmem.1 h), hf.2⟩

/-- The clock concerns only those who wait. -/
theorem Fits.clock (hf : v.Fits now log) {time : Int}
    (htime : v.stage.isWaiting = true → v.InTime time) : v.Fits time log := by
  unfold Fits at hf ⊢
  cases hstage : v.stage with
  | waiting =>
    simp only [hstage] at hf htime
    exact ⟨hf.1, htime rfl⟩
  | inside since => simpa only [hstage] using hf
  | ended outcome time =>
    simp only [hstage] at hf
    cases outcome <;> exact hf

end Visit

namespace Hall

variable [DecidableEq κ] [DecidableEq τ] {h : Hall κ τ} {u v : Visit κ τ} {task : τ}
variable {log : List (Admission κ τ)}

/-- Those who come in when a hall settles, in this order. -/
def entries (h : Hall κ τ) : List (Admission κ τ) :=
  match _hv : h.admissible? with
  | none => []
  | some v => ⟨v.task, v.key, h.now⟩ :: entries (h.letIn v)
termination_by h.waitingCount
decreasing_by exact waitingCount_letIn _hv

/-- A book tells who has come in. -/
structure Logged (h : Hall κ τ) (log : List (Admission κ τ)) : Prop where
  fits : ∀ v ∈ h.visits, v.Fits h.now log
  /-- Whoever is in the book has come, and came in before the deadline. -/
  known : ∀ a ∈ log, ∃ v ∈ h.visits, v.task = a.task ∧ v.key = a.key ∧ v.InTime a.time
  /-- Nobody is left behind by one who came later. -/
  behind : ∀ u v, [u, v].Sublist h.visits → u.key = v.key → v.task ∈ log.map (·.task) →
    u.isPresent = false
  /-- The book follows the order in which the tasks asked. -/
  ordered : log.Pairwise fun a b => a.key = b.key → [a.task, b.task].Sublist (h.visits.map (·.task))

omit [DecidableEq κ] [DecidableEq τ] in
theorem logged_empty : Logged ({} : Hall κ τ) [] where
  fits _ hv := absurd hv List.not_mem_nil
  known _ ha := absurd ha List.not_mem_nil
  behind _ _ _ _ hv := absurd hv List.not_mem_nil
  ordered := List.Pairwise.nil

/-! ## Visits one after the other -/

omit [DecidableEq κ] [DecidableEq τ] in
theorem mem_of_pair (huv : [u, v].Sublist h.visits) : u ∈ h.visits ∧ v ∈ h.visits := by
  constructor
  · exact huv.subset List.mem_cons_self
  · exact huv.subset (List.mem_cons_of_mem _ List.mem_cons_self)

/-- Of two different members of a list one stands before the other. -/
theorem pair_sublist_or {α : Type} {a b : α} {l : List α} (ha : a ∈ l) (hb : b ∈ l) (hne : a ≠ b) :
    [a, b].Sublist l ∨ [b, a].Sublist l := by
  induction l with
  | nil => exact absurd ha List.not_mem_nil
  | cons c l ih =>
    rcases List.mem_cons.1 ha with rfl | ha'
    · have hb' : b ∈ l := (List.mem_cons.1 hb).resolve_left (Ne.symm hne)
      exact .inl ((List.singleton_sublist.2 hb').cons_cons a)
    · rcases List.mem_cons.1 hb with rfl | hb'
      · exact .inr ((List.singleton_sublist.2 ha').cons_cons b)
      · rcases ih ha' hb' with hab | hba
        · exact .inl (hab.cons c)
        · exact .inr (hba.cons c)

theorem pair_of_append {α : Type} {a b c : α} {l : List α} (h : [a, b].Sublist (l ++ [c]))
    (hne : b ≠ c) : [a, b].Sublist l := by
  obtain ⟨left, right, hsplit, hleft, hright⟩ := List.sublist_append_iff.1 h
  rcases List.sublist_singleton.1 hright with rfl | rfl
  · rw [List.append_nil] at hsplit
    exact hsplit ▸ hleft
  · have hlast : some b = some c := by simpa using congrArg List.getLast? hsplit
    exact absurd (Option.some.inj hlast) hne

omit [DecidableEq τ] in
/-- Whoever is handed the lock has nobody in front who is still present. -/
theorem Sound.first (hh : h.Sound) (hholder : h.locks.holder? v.key = some v.task)
    (huv : [u, v].Sublist h.visits) (hkey : u.key = v.key) (hv : v.isPresent = true) :
    u.isPresent = false := by
  by_contra hu
  have hpair : [u, v].Sublist (h.present v.key) := by
    have hfiltered := huv.filter fun w => w.isPresent && decide (w.key = v.key)
    have hu' : u.isPresent = true := by simpa using hu
    rw [List.filter_cons_of_pos (by simp [hkey, hu']), List.filter_cons_of_pos (by simp [hv]),
      List.filter_nil] at hfiltered
    exact hfiltered
  have hline : [u.task, v.task].Sublist (h.locks.line v.key) := by
    rw [hh.line_eq]
    exact hpair.map (·.task)
  have hnodup : (h.locks.line v.key).Nodup := by
    rw [hh.line_eq]
    exact hh.tasks_nodup.sublist (List.filter_sublist.map _)
  rw [hh.orderly.sound.holder?_eq_head?] at hholder
  obtain ⟨rest, hrest⟩ := List.head?_eq_some_iff.1 hholder
  rw [hrest] at hline hnodup
  have hmem : v.task ∈ rest := List.singleton_sublist.1 hline.tail
  exact (List.nodup_cons.1 hnodup).1 hmem

/-! ## One move -/

/-- A newcomer is not in the book yet. -/
theorem Logged.come (hl : h.Logged log) (hnew : h.visit? task = none) (key : κ)
    (timeout : Option Int) : (h.come task key timeout).Logged log := by
  have hfresh : task ∉ log.map (·.task) := by
    intro hmem
    obtain ⟨a, ha, rfl⟩ := List.mem_map.1 hmem
    obtain ⟨v, hv, htask, -⟩ := hl.known a ha
    simp only [visit?, List.find?_eq_none, decide_eq_true_eq] at hnew
    exact hnew v hv htask
  constructor
  · intro v hv
    rcases List.mem_append.1 hv with hold | hnewcomer
    · exact hl.fits v hold
    · rw [List.mem_singleton.1 hnewcomer, Visit.fits_waiting rfl]
      refine ⟨hfresh, fun d hd => ?_⟩
      obtain ⟨t, -, rfl⟩ := Option.map_eq_some_iff.1 hd
      simp only [Hall.come]
      omega
  · intro a ha
    obtain ⟨v, hv, hknown⟩ := hl.known a ha
    exact ⟨v, List.mem_append_left _ hv, hknown⟩
  · intro u v huv hkey hlogged
    have hold : [u, v].Sublist h.visits := by
      apply pair_of_append huv
      rintro rfl
      exact hfresh hlogged
    exact hl.behind u v hold hkey hlogged
  · refine hl.ordered.imp fun hab hkey => ?_
    simp only [Hall.come, List.map_append]
    exact (hab hkey).trans (List.sublist_append_left _ _)

omit [DecidableEq κ] in
theorem map_call_update {f : Visit κ τ → Visit κ τ} (hf : ∀ v, (f v).call = v.call) :
    (h.update task f).visits.map Visit.call = h.visits.map Visit.call := by
  simp only [Hall.update, List.map_map]
  refine List.map_congr_left fun v _ => ?_
  by_cases hv : v.task = task <;> simp [hv, hf]

omit [DecidableEq κ] [DecidableEq τ] in
/-- Two visits that stand one after the other after a change stood so before. -/
theorem pair_of_map {f : Visit κ τ → Visit κ τ} {visits : List (Visit κ τ)}
    (huv : [u, v].Sublist (visits.map f)) :
    ∃ u' v', [u', v'].Sublist visits ∧ u = f u' ∧ v = f v' := by
  obtain ⟨l, hl, heq⟩ := List.sublist_map_iff.1 huv
  rcases l with _ | ⟨u', _ | ⟨v', _ | ⟨w, l⟩⟩⟩
  · simp at heq
  · simp at heq
  · simp only [List.map_cons, List.map_nil, List.cons.injEq, and_true] at heq
    exact ⟨u', v', hl, heq.1, heq.2⟩
  · simp at heq

omit [DecidableEq κ] [DecidableEq τ] in
/-- The stages of visits may change to such that the book agrees with. -/
theorem Logged.map (hl : h.Logged log) {h' : Hall κ τ} {f : Visit κ τ → Visit κ τ}
    (hvisits : h'.visits = h.visits.map f) (hcall : ∀ v, (f v).call = v.call)
    (hpresent : ∀ v ∈ h.visits, v.isPresent = false → (f v).isPresent = false)
    (hfits : ∀ v ∈ h.visits, (f v).Fits h'.now log) : h'.Logged log := by
  have htask : ∀ v, (f v).task = v.task := fun v => congrArg Call.task (hcall v)
  have hkey : ∀ v, (f v).key = v.key := fun v => congrArg Call.key (hcall v)
  constructor
  · intro v hv
    rw [hvisits] at hv
    obtain ⟨w, hw, rfl⟩ := List.mem_map.1 hv
    exact hfits w hw
  · intro a ha
    obtain ⟨v, hv, hvtask, hvkey, htime⟩ := hl.known a ha
    have harrived : (f v).arrived = v.arrived := congrArg Call.time (hcall v)
    have hdeadline : (f v).deadline = v.deadline := congrArg Call.deadline (hcall v)
    refine ⟨f v, hvisits ▸ List.mem_map_of_mem hv, (htask v).trans hvtask, (hkey v).trans hvkey, ?_⟩
    rw [Visit.InTime, harrived, hdeadline]
    exact htime
  · intro u v huv huvkey hlogged
    rw [hvisits] at huv
    obtain ⟨u', v', hpair, rfl, rfl⟩ := pair_of_map huv
    rw [hkey, hkey] at huvkey
    rw [htask] at hlogged
    exact hpresent u' (mem_of_pair hpair).1 (hl.behind u' v' hpair huvkey hlogged)
  · have hsame : h'.visits.map (·.task) = h.visits.map (·.task) := by
      rw [hvisits, List.map_map]
      exact List.map_congr_left fun v _ => htask v
    rw [hsame]
    exact hl.ordered

omit [DecidableEq κ] in
theorem Logged.update (hl : h.Logged log) {f : Visit κ τ → Visit κ τ}
    (hcall : ∀ v, (f v).call = v.call)
    (hpresent : ∀ v ∈ h.visits, v.isPresent = false → (f v).isPresent = false)
    (hfits : ∀ v ∈ h.visits, v.task = task → (f v).Fits h.now log) :
    (h.update task f).Logged log := by
  refine hl.map rfl (fun v => ?_) (fun v hv habsent => ?_) fun v hv => ?_
  · split
    · exact hcall v
    · rfl
  · split
    · exact hpresent v hv habsent
    · exact habsent
  · split
    · rename_i ht
      exact hfits v hv ht
    · exact hl.fits v hv

/-- Whoever has been handed the lock is written down and goes inside. -/
theorem Logged.goIn (hl : h.Logged log) (hh : h.Sound) (hv : v ∈ h.visits)
    (hwaits : v.stage.isWaiting = true) (hholder : h.locks.holder? v.key = some v.task) :
    (h.goIn v.task).Logged (log ++ [⟨v.task, v.key, h.now⟩]) := by
  have hpresent : v.isPresent = true := Visit.isPresent_of_isWaiting hwaits
  obtain ⟨hfresh, htime⟩ := (Visit.fits_waiting hwaits).1 (hl.fits v hv)
  have hcall : (h.goIn v.task).visits.map Visit.call = h.visits.map Visit.call :=
    map_call_update fun _ => rfl
  have htasks : (h.goIn v.task).visits.map (·.task) = h.visits.map (·.task) :=
    map_task_update fun _ => rfl
  constructor
  · intro u hu
    obtain ⟨w, hw, rfl⟩ := List.mem_map.1 hu
    by_cases ht : w.task = v.task
    · obtain rfl := hh.eq_of_task hw hv ht
      rw [if_pos rfl]
      exact List.mem_append_right _ List.mem_cons_self
    · rw [if_neg ht]
      exact (hl.fits w hw).extend (Ne.symm ht)
  · intro a ha
    obtain ⟨w, hw, htask, hkey, hin⟩ : ∃ w ∈ h.visits, w.task = a.task ∧ w.key = a.key ∧
        w.InTime a.time := by
      rcases List.mem_append.1 ha with hold | hnew
      · exact hl.known a hold
      · rw [List.mem_singleton.1 hnew]
        exact ⟨v, hv, rfl, rfl, htime⟩
    obtain ⟨u, hu, hucall⟩ : ∃ u ∈ (h.goIn v.task).visits, u.call = w.call := by
      rw [← List.mem_map, hcall]
      exact List.mem_map_of_mem hw
    simp only [Visit.call, Call.mk.injEq] at hucall
    obtain ⟨hutask, hukey, harrived, hdeadline⟩ := hucall
    refine ⟨u, hu, hutask.trans htask, hukey.trans hkey, ?_⟩
    rw [Visit.InTime, harrived, hdeadline]
    exact hin
  · -- Those in front of the newcomer are gone because it is the newcomer that has the lock.
    intro u u' huu' hkey hlogged
    obtain ⟨w, w', hpair, rfl, rfl⟩ := pair_of_map huu'
    have hkeys : w.key = w'.key := by
      split at hkey <;> split at hkey <;> exact hkey
    have htask' : (if w'.task = v.task then { w' with stage := .inside h.now } else w').task =
        w'.task := by
      split <;> rfl
    rw [htask', List.map_append, List.mem_append] at hlogged
    have habsent : w.isPresent = false := by
      rcases hlogged with hold | hnew
      · exact hl.behind w w' hpair hkeys hold
      · have ht : w'.task = v.task := by simpa using hnew
        obtain rfl := hh.eq_of_task (mem_of_pair hpair).2 hv ht
        exact hh.first hholder hpair hkeys hpresent
    have hne : w.task ≠ v.task := by
      intro ht
      obtain rfl := hh.eq_of_task (mem_of_pair hpair).1 hv ht
      simp [hpresent] at habsent
    rw [if_neg hne]
    exact habsent
  · rw [htasks, List.pairwise_append]
    refine ⟨hl.ordered, List.pairwise_singleton _ _, fun a ha b hb hkey => ?_⟩
    obtain rfl := List.mem_singleton.1 hb
    obtain ⟨w, hw, htask, hwkey, -⟩ := hl.known a ha
    have hne : w ≠ v := by
      rintro rfl
      exact hfresh (htask ▸ List.mem_map_of_mem ha)
    rcases pair_sublist_or hw hv hne with hbefore | hafter
    · rw [← htask]
      exact hbefore.map (·.task)
    · have hgone := hl.behind v w hafter (hkey.symm.trans hwkey.symm)
        (htask ▸ List.mem_map_of_mem ha)
      simp [hpresent] at hgone

omit [DecidableEq κ] [DecidableEq τ] in
/-- The book does not look at the locks. -/
theorem Logged.locks (hl : h.Logged log) (locks : Registry κ τ) :
    Logged { h with locks := locks } log :=
  ⟨hl.fits, hl.known, hl.behind, hl.ordered⟩

/-- A visit ends in a way that the book agrees with. -/
theorem Logged.finish (hl : h.Logged log) (hh : h.Sound) (hv : v ∈ h.visits) (outcome : Outcome)
    (hfits : ({ v with stage := .ended outcome h.now } : Visit κ τ).Fits h.now log)
    (locks : Registry κ τ) : (finish { h with locks := locks } v.task outcome).Logged log := by
  refine (hl.locks locks).update (fun _ => rfl) (fun _ _ _ => rfl) fun w hw ht => ?_
  rw [hh.eq_of_task hw hv ht]
  exact hfits

/-- Whoever is inside may leave. -/
theorem Logged.depart (hl : h.Logged log) (hh : h.Sound) (hv : v ∈ h.visits)
    (hinside : v.isInside = true) {outcome : Outcome} (hout : outcome ≠ .timedOut) :
    (h.depart v outcome).Logged log := by
  have hmem := (hl.fits v hv).mem_of_isInside hinside
  apply hl.finish hh hv outcome
  cases outcome with
  | released => exact hmem
  | failed => exact hmem
  | cancelled => exact .inl hmem
  | timedOut => exact absurd rfl hout

/-- Whoever waits may be cancelled before the deadline. -/
theorem Logged.giveUp_cancelled (hl : h.Logged log) (hh : h.Sound) (hv : v ∈ h.visits)
    (hearly : ∀ d ∈ v.deadline, h.now < d) : (h.giveUp v .cancelled).Logged log :=
  hl.finish hh hv .cancelled (.inr hearly) _

/-- Whoever waits gives up at the deadline. -/
theorem Logged.giveUp_timedOut (hl : h.Logged log) (hh : h.Sound) (hv : v ∈ h.visits)
    (hwaits : v.stage.isWaiting = true) (hlate : v.deadline = some h.now) :
    (h.giveUp v .timedOut).Logged log :=
  hl.finish hh hv .timedOut ⟨((Visit.fits_waiting hwaits).1 (hl.fits v hv)).1, hlate⟩ _

omit [DecidableEq κ] in
/-- Whoever waits may be told how to leave. -/
theorem Logged.tell (hl : h.Logged log) (task : τ) (exit : Exit) : (h.tell task exit).Logged log :=
  hl.update (fun _ => rfl) (fun _ _ hv => hv) fun v hv _ => hl.fits v hv

/-! ## Settling -/

/-- Whoever can get in is written down, even if the way leads straight through. -/
theorem Logged.letIn (hl : h.Logged log) (hh : h.Sound) (hv : h.admissible? = some v) :
    (h.letIn v).Logged (log ++ [⟨v.task, v.key, h.now⟩]) := by
  obtain ⟨hmem, hwaits, hholds⟩ := mem_of_admissible? hv
  have hgone := hl.goIn hh hmem hwaits (holds_iff.1 hholds)
  unfold Hall.letIn
  cases hwish : v.wish with
  | none => exact hgone
  | some exit =>
    have hsound := hh.goIn hmem hwaits (holds_iff.1 hholds)
    have hinside : { v with stage := .inside h.now } ∈ (h.goIn v.task).visits :=
      List.mem_map.2 ⟨v, hmem, if_pos rfl⟩
    exact hgone.depart hsound hinside rfl (by cases exit <;> simp [Exit.outcome])

theorem entries_of_none (hnone : h.admissible? = none) : h.entries = [] := by
  rw [entries]
  split
  · rfl
  · simp_all

theorem entries_of_some (hv : h.admissible? = some v) :
    h.entries = ⟨v.task, v.key, h.now⟩ :: (h.letIn v).entries := by
  rw [entries]
  split
  · simp_all
  · simp_all

/-- Letting in all who can get in keeps the book. -/
theorem Logged.settle (hl : h.Logged log) (hh : h.Sound) : h.settle.Logged (log ++ h.entries) := by
  fun_induction Hall.settle h generalizing log with
  | case1 h hnone =>
    rw [entries_of_none hnone, List.append_nil]
    exact hl
  | case2 h v hv ih =>
    rw [entries_of_some hv, List.append_cons]
    exact ih (hl.letIn hh hv) ((hh.leads_letIn hv).sound hh)

theorem letIn_now (h : Hall κ τ) (v : Visit κ τ) : (h.letIn v).now = h.now := by
  unfold letIn
  cases v.wish <;> rfl

theorem settle_now (h : Hall κ τ) : h.settle.now = h.now := by
  fun_induction Hall.settle h with
  | case1 h hnone => rfl
  | case2 h v hv ih => rw [ih, letIn_now]

/-- Letting one in changes only this one. -/
theorem visits_letIn (h : Hall κ τ) (v : Visit κ τ) :
    ∃ f : Visit κ τ → Visit κ τ, (h.letIn v).visits = (h.update v.task f).visits ∧
      ∀ u, (f u).call = u.call := by
  unfold letIn
  cases v.wish with
  | none => exact ⟨_, rfl, fun _ => rfl⟩
  | some exit =>
    refine ⟨fun u => { u with stage := .ended (Exit.outcome exit) h.now }, ?_, fun _ => rfl⟩
    simp only [depart, finish, Hall.update, List.map_map]
    refine List.map_congr_left fun u _ => ?_
    by_cases ht : u.task = v.task <;> simp [ht]

/-- Settling changes only those who come in. -/
theorem mem_settle (hv : v ∈ h.settle.visits) :
    v ∈ h.visits ∨ v.task ∈ h.entries.map (·.task) := by
  fun_induction Hall.settle h with
  | case1 h hnone => exact .inl hv
  | case2 h w hw ih =>
    rw [entries_of_some hw, List.map_cons, List.mem_cons]
    rcases ih hv with hmem | hentered
    · obtain ⟨f, hvisits, hcall⟩ := visits_letIn h w
      rw [hvisits] at hmem
      obtain ⟨u, hu, rfl⟩ := List.mem_map.1 hmem
      by_cases ht : u.task = w.task
      · rw [if_pos ht]
        exact .inr (.inl ((congrArg Call.task (hcall u)).trans ht))
      · rw [if_neg ht]
        exact .inl hu
    · exact .inr (.inr hentered)

end Hall

end PuzzleContest.Lock
