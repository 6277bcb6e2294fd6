import PuzzleContest.Proofs.Room

/-!
# A hall is made of rooms

What is done in a hall of keyed locks is done to each of its rooms: a move or a command on one key does
to the room of that key what it does to the hall, and to every other room nothing.

Main definitions:

- `Hall.room`: the room of a key in a hall.

Main results:

- `Hall.Sound.entry_eq`: the entry of a lock can be told from its room.
- `Hall.Sound.room_step`: a move does to a room what it does to the hall.
- `Hall.Sound.room_settle`: so does settling, with those who come in.
- `Hall.Sound.room_obey`: so does a command.
-/

namespace PuzzleContest.Lock

variable {κ τ : Type}

namespace Hall

variable [DecidableEq κ] [DecidableEq τ] {h : Hall κ τ} {v : Visit κ τ} {task : τ} {key k : κ}
variable {timeout : Option Int}

/-- The room of a key. -/
def room (h : Hall κ τ) (key : κ) : Room κ τ :=
  ⟨h.now, (h.visits.filter fun v => v.key = key).map Visit.bare⟩

/-! ## What a room shows of a hall -/

theorem room_update {f : Visit κ τ → Visit κ τ} (hkey : ∀ v, (f v).key = v.key)
    (hbare : ∀ v, (f v).bare = f v.bare) (k : κ) :
    (h.update task f).room k = (h.room k).update task f := by
  simp only [room, Hall.update, Room.update, Room.mk.injEq, true_and, List.filter_map, List.map_map]
  have hfilter : (h.visits.filter
      ((fun v => decide (v.key = k)) ∘ fun v => if v.task = task then f v else v)) =
        h.visits.filter fun v => v.key = k := by
    refine List.filter_congr fun v _ => ?_
    simp only [Function.comp]
    split
    · rw [hkey]
    · rfl
  rw [hfilter]
  refine List.map_congr_left fun v _ => ?_
  simp only [Function.comp]
  by_cases ht : v.task = task
  · rw [if_pos ht, hbare]
    exact (if_pos ht).symm
  · rw [if_neg ht]
    exact (if_neg ht).symm

theorem room_finish (h : Hall κ τ) (locks : Registry κ τ) (task : τ) (outcome : Outcome) (k : κ) :
    (finish { h with locks } task outcome).room k = (h.room k).finish task outcome :=
  room_update (h := { h with locks }) (f := fun v => { v with stage := .ended outcome h.now })
    (fun _ => rfl) (fun _ => rfl) k

omit [DecidableEq τ] in
theorem Sound.nodup_room (hh : h.Sound) (k : κ) : ((h.room k).visits.map (·.task)).Nodup := by
  simp only [room, List.map_map]
  exact hh.tasks_nodup.sublist (List.filter_sublist.map _)

/-- A room shows the visit of a task that comes for its key. -/
theorem Sound.room_visit? (hh : h.Sound) (k : κ) (task : τ) : (h.room k).visit? task =
    ((h.visit? task).filter fun v => v.key = k).map Visit.bare := by
  cases hvisit : h.visit? task with
  | none =>
    rw [Option.filter_none, Option.map_none, Room.visit?_eq_none_iff]
    intro u hu
    obtain ⟨w, hw, rfl⟩ := List.mem_map.1 hu
    simp only [visit?, List.find?_eq_none, decide_eq_true_eq] at hvisit
    exact hvisit w (List.mem_filter.1 hw).1
  | some v =>
    obtain ⟨hv, rfl⟩ := mem_of_visit? hvisit
    by_cases hk : v.key = k
    · rw [Option.filter_some_pos (by simpa using hk), Option.map_some]
      have hmem : v.bare ∈ (h.room k).visits :=
        List.mem_map_of_mem (List.mem_filter.2 ⟨hv, by simpa using hk⟩)
      cases hfind : (h.room k).visit? v.task with
      | none => exact absurd v.task_bare (Room.visit?_eq_none_iff.1 hfind _ hmem)
      | some u =>
        have htask : u.task = v.task := by simpa using List.find?_some hfind
        rw [List.inj_on_of_nodup_map (hh.nodup_room k) (List.mem_of_find?_eq_some hfind) hmem htask]
    · rw [Option.filter_some_neg (by simpa using hk), Option.map_none, Room.visit?_eq_none_iff]
      intro u hu heq
      obtain ⟨w, hw, rfl⟩ := List.mem_map.1 hu
      obtain ⟨hmem, hkey⟩ := List.mem_filter.1 hw
      obtain rfl := hh.eq_of_task hmem hv heq
      exact hk (of_decide_eq_true hkey)

theorem Sound.room_visit?_of_none (hh : h.Sound) (hnew : h.visit? task = none) (k : κ) :
    (h.room k).visit? task = none := by
  rw [hh.room_visit?, hnew, Option.filter_none, Option.map_none]

/-- A room does not show who comes for another key. -/
theorem Sound.room_visit?_of_ne (hh : h.Sound) (hv : v ∈ h.visits) (hkey : v.key ≠ k) :
    (h.room k).visit? v.task = none := by
  rw [hh.room_visit?, hh.visit?_of_mem hv, Option.filter_some_neg (by simpa using hkey),
    Option.map_none]

/-- A task has no visit, or comes for the key and is seen in its room, or comes for another key and is
not seen there. -/
theorem Sound.visit?_cases (hh : h.Sound) (k : κ) (task : τ) :
    (h.visit? task = none ∧ (h.room k).visit? task = none) ∨
    (∃ v ∈ h.visits, v.task = task ∧ v.key = k ∧ h.visit? task = some v ∧
      (h.room k).visit? task = some v.bare) ∨
    ∃ v ∈ h.visits, v.task = task ∧ v.key ≠ k ∧ h.visit? task = some v ∧
      (h.room k).visit? task = none := by
  have hroom := hh.room_visit? k task
  cases hvisit : h.visit? task with
  | none => exact .inl ⟨rfl, hh.room_visit?_of_none hvisit k⟩
  | some v =>
    obtain ⟨hv, htask⟩ := mem_of_visit? hvisit
    rw [hvisit] at hroom
    by_cases hkey : v.key = k
    · rw [Option.filter_some_pos (by simpa using hkey), Option.map_some] at hroom
      exact .inr (.inl ⟨v, hv, htask, hkey, rfl, hroom⟩)
    · rw [Option.filter_some_neg (by simpa using hkey), Option.map_none] at hroom
      exact .inr (.inr ⟨v, hv, htask, hkey, rfl, hroom⟩)

omit [DecidableEq τ] in
theorem Sound.line_room (hh : h.Sound) (k : κ) : (h.room k).line = h.locks.line k := by
  have hfilter : (h.visits.filter fun v => v.key = k).filter (Visit.isPresent ∘ Visit.bare) =
      h.present k := by
    rw [List.filter_filter]
    exact List.filter_congr fun v _ => rfl
  rw [hh.line_eq, Room.line, room, List.filter_map, List.map_map, hfilter]
  rfl

theorem Sound.holds_room (hh : h.Sound) (k : κ) (task : τ) :
    (h.room k).holds task = h.locks.holds k task := by
  rw [Room.holds, hh.line_room, Registry.holds, hh.orderly.sound.holder?_eq_head?]

omit [DecidableEq τ] in
/-- The entry of a lock can be told from its room: its users, its holder, and those who wait. -/
theorem Sound.entry_eq (hh : h.Sound) (k : κ) :
    (h.locks.find? k).map (fun e => (e.users, e.holder, e.waiters)) = (h.room k).slot? := by
  rw [Room.slot?, hh.line_room]
  cases hfind : h.locks.find? k with
  | none => rw [Registry.line_of_find?_none hfind, Option.map_none]
  | some e =>
    obtain ⟨t, ht, hline⟩ := hh.orderly.sound.exists_line_eq hfind
    have husers := hh.orderly.sound.users_eq_length hfind
    rw [hline, List.length_cons] at husers
    rw [hline, Option.map_some, ht, husers]

/-! ## Moves -/

omit [DecidableEq τ] in
/-- A newcomer for the key is a newcomer in its room. -/
theorem room_come (h : Hall κ τ) (task : τ) (key : κ) (timeout : Option Int) :
    (h.come task key timeout).room key = (h.room key).come task key timeout := by
  simp [room, Hall.come, Room.come, Visit.bare]

omit [DecidableEq τ] in
/-- A newcomer for another key is not seen. -/
theorem room_come_of_ne (h : Hall κ τ) (task : τ) {key k : κ} (hne : key ≠ k)
    (timeout : Option Int) : (h.come task key timeout).room k = h.room k := by
  simp [room, Hall.come, hne]

theorem room_goIn (h : Hall κ τ) (task : τ) (k : κ) :
    (h.goIn task).room k = (h.room k).goIn task :=
  room_update (f := fun v => { v with stage := .inside h.now }) (fun _ => rfl) (fun _ => rfl) k

theorem room_tell (h : Hall κ τ) (task : τ) (exit : Exit) (k : κ) :
    (h.tell task exit).room k = (h.room k).tell task exit :=
  room_update (f := fun v =>
    { v with wish := if v.wish = some .failing then some .failing else some exit })
    (fun _ => rfl) (fun _ => rfl) k

theorem room_depart (h : Hall κ τ) (v : Visit κ τ) (outcome : Outcome) (k : κ) :
    (h.depart v outcome).room k = (h.room k).finish v.task outcome :=
  room_finish h _ v.task outcome k

theorem room_giveUp (h : Hall κ τ) (v : Visit κ τ) (outcome : Outcome) (k : κ) :
    (h.giveUp v outcome).room k = (h.room k).finish v.task outcome :=
  room_finish h _ v.task outcome k

/-- What is done to a task that is there, if it can be, is seen in the room of its key and in no
other. -/
theorem Sound.room_turn (hh : h.Sound) (k : κ) (task : τ) {may may' : Visit κ τ → Bool}
    {turn : Visit κ τ → Hall κ τ} {f : Visit κ τ → Visit κ τ}
    (hmay : ∀ v, v.task = task → v.key = k → may v = may' v.bare)
    (hturn : ∀ v, v.task = task → (turn v).room k = (h.room k).update task f) :
    (match h.visit? task with
      | some v => if may v then turn v else h
      | none => h).room k =
    match (h.room k).visit? task with
      | some v => if may' v then (h.room k).update task f else h.room k
      | none => h.room k := by
  rcases hh.visit?_cases k task with ⟨hvisit, hroom⟩ | ⟨v, -, rfl, hkey, hvisit, hroom⟩ |
    ⟨v, -, rfl, -, hvisit, hroom⟩
  · simp only [hvisit, hroom]
  · simp only [hvisit, hroom, apply_ite (fun h : Hall κ τ => h.room k), hturn v rfl,
      hmay v rfl hkey]
  · simp only [hvisit, hroom, apply_ite (fun h : Hall κ τ => h.room k), hturn v rfl,
      Room.update_of_visit? hroom, ite_self]

/-- A move of a task that comes for the key, or of the clock, does to its room what it does to the
hall. -/
theorem Sound.room_step (hh : h.Sound) {move : Move κ τ}
    (hcome : ∀ task key timeout, move = .come task key timeout → key = k ∧ h.visit? task = none) :
    (h.step move).room k = (h.room k).step move := by
  cases move with
  | come task key timeout =>
    obtain ⟨rfl, hnew⟩ := hcome task key timeout rfl
    simp only [Hall.step, hnew, Option.isSome_none, Room.step]
    exact room_come h task key timeout
  | goIn task =>
    refine hh.room_turn k task (fun v _ hkey => ?_) fun v _ => room_goIn h task k
    rw [Visit.stage_bare, hh.holds_room, hkey]
  | leave task outcome =>
    exact hh.room_turn k task (fun v _ _ => (Visit.isInside_bare v).symm) fun v htask =>
      htask ▸ room_depart h v outcome k
  | quit task outcome =>
    refine hh.room_turn k task (fun v _ _ => congrArg Stage.isWaiting (Visit.stage_bare v).symm)
      fun v htask => ?_
    -- Whether the lock has been handed over makes no difference to who is left.
    split
    · exact htask ▸ room_depart h v outcome k
    · exact htask ▸ room_giveUp h v outcome k
  | tell task exit =>
    exact hh.room_turn k task (fun v _ _ => congrArg Stage.isWaiting (Visit.stage_bare v).symm)
      fun v _ => room_tell h task exit k
  | clock now => rfl

/-! ## Commands -/

theorem room_letIn (h : Hall κ τ) (v : Visit κ τ) (k : κ) :
    (h.letIn v).room k = (h.room k).letIn v := by
  unfold letIn Room.letIn
  cases v.wish with
  | none => exact room_goIn h v.task k
  | some exit =>
    have hleft := room_depart (h.goIn v.task) v (Exit.outcome exit) k
    rw [room_goIn] at hleft
    exact hleft

/-- Between the commands nobody can get in. -/
theorem Sound.room_of_settled (hh : h.Sound) (hset : h.Settled) (k : κ) :
    (h.room k).settle = h.room k ∧ (h.room k).entries = [] := by
  apply Room.settle_of_settled
  intro u hu hwaits
  obtain ⟨w, hw, rfl⟩ := List.mem_map.1 hu
  obtain ⟨hmem, hkey⟩ := List.mem_filter.1 hw
  rw [hh.holds_room, ← of_decide_eq_true hkey]
  exact hset w hmem hwaits

/-- Settling does to a room what it does to the hall, and lets the same tasks in. -/
theorem Sound.room_settle (hh : h.Sound) (k : κ) :
    h.settle.room k = (h.room k).settle ∧
      h.entries.filter (fun a => a.key = k) = (h.room k).entries := by
  fun_induction Hall.settle h with
  | case1 h hnone =>
    obtain ⟨hsame, hnobody⟩ := hh.room_of_settled (settled_of_admissible? hnone) k
    rw [entries_of_none hnone, hsame, hnobody]
    exact ⟨rfl, rfl⟩
  | case2 h v hv ih =>
    obtain ⟨hmem, hwaits, hholds⟩ := mem_of_admissible? hv
    obtain ⟨hsettle, hentries⟩ := ih ((hh.leads_letIn hv).sound hh)
    rw [room_letIn] at hsettle hentries
    rw [entries_of_some hv]
    by_cases hkey : v.key = k
    · have hbare : v.bare ∈ (h.room k).visits :=
        List.mem_map_of_mem (List.mem_filter.2 ⟨hmem, by simpa using hkey⟩)
      have hfirst : (h.room k).holds v.bare.task = true := by
        rw [hh.holds_room, ← hkey]
        exact hholds
      obtain ⟨hsame, hall⟩ := Room.settle_letIn (hh.nodup_room k) hbare hwaits hfirst
      refine ⟨hsettle.trans hsame, ?_⟩
      rw [List.filter_cons_of_pos (by simpa using hkey), hentries]
      exact hall.symm
    · have hsame : (h.room k).letIn v = h.room k := by
        have hnone := hh.room_visit?_of_ne hmem hkey
        unfold Room.letIn
        cases v.wish with
        | none => exact Room.update_of_visit? hnone _
        | some exit =>
          dsimp only
          rw [Room.goIn, Room.update_of_visit? hnone, Room.finish, Room.update_of_visit? hnone]
      rw [hsame] at hsettle hentries
      rw [List.filter_cons_of_neg (by simpa using hkey)]
      exact ⟨hsettle, hentries⟩

theorem acquire_of_none (hvisit : (h.come task key timeout).settle.visit? task = none) :
    h.acquire task key timeout = (h.come task key timeout).settle := by
  dsimp only [acquire]
  split
  · rename_i w hw
    exact absurd (hw.symm.trans hvisit) (by simp)
  · rfl

theorem acquire_of_some {w : Visit κ τ}
    (hvisit : (h.come task key timeout).settle.visit? task = some w) :
    h.acquire task key timeout =
      if w.stage.isWaiting && decide (∃ d ∈ w.deadline, d ≤ (h.come task key timeout).settle.now) then
        (h.come task key timeout).settle.giveUp w .timedOut
      else (h.come task key timeout).settle := by
  dsimp only [acquire]
  split
  · rename_i w' hw'
    obtain rfl := Option.some.inj (hw'.symm.trans hvisit)
    rfl
  · rename_i hnone
    exact absurd (hnone.symm.trans hvisit) (by simp)

/-- A newcomer's visit is to the key that it asked for. -/
theorem key_of_settle_come (hnew : h.visit? task = none)
    (hvisit : (h.come task key timeout).settle.visit? task = some v) : v.key = key := by
  obtain ⟨hv, htask⟩ := mem_of_visit? hvisit
  have hcall : v.call ∈ (h.come task key timeout).visits.map Visit.call := by
    rw [← map_call_settle]
    exact List.mem_map_of_mem hv
  obtain ⟨w, hw, heq⟩ := List.mem_map.1 hcall
  rcases List.mem_append.1 hw with hold | hnewcomer
  · simp only [visit?, List.find?_eq_none, decide_eq_true_eq] at hnew
    exact absurd ((congrArg Call.task heq).trans htask) (hnew w hold)
  · rw [List.mem_singleton.1 hnewcomer] at heq
    exact (congrArg Call.key heq).symm

theorem Sound.room_acquire (hh : h.Sound) (hnew : h.visit? task = none) (key : κ)
    (timeout : Option Int) :
    (h.acquire task key timeout).room key = (h.room key).acquire task key timeout ∧
      (h.come task key timeout).entries.filter (fun a => a.key = key) =
        ((h.room key).come task key timeout).entries := by
  have hcome := hh.come hnew key timeout
  have hsound := hcome.leads_settle.sound hcome
  obtain ⟨hsettle, hentries⟩ := hcome.room_settle key
  rw [room_come] at hsettle hentries
  refine ⟨?_, hentries⟩
  have hroom := hsound.room_visit? key task
  rw [hsettle] at hroom
  cases hvisit : (h.come task key timeout).settle.visit? task with
  | none =>
    rw [hvisit, Option.filter_none, Option.map_none] at hroom
    rw [acquire_of_none hvisit]
    simp only [Room.acquire, hroom]
    exact hsettle
  | some w =>
    have hkey := key_of_settle_come hnew hvisit
    obtain ⟨-, htask⟩ := mem_of_visit? hvisit
    rw [hvisit, Option.filter_some_pos (by simpa using hkey), Option.map_some] at hroom
    rw [acquire_of_some hvisit]
    simp only [Room.acquire, hroom, apply_ite (fun h : Hall κ τ => h.room key), room_giveUp, hsettle,
      htask, settle_now]
    rfl

/-- A newcomer for another key is not seen. -/
theorem Sound.room_acquire_of_ne (hh : h.Sound) (hset : h.Settled) (hnew : h.visit? task = none)
    (hne : key ≠ k) (timeout : Option Int) :
    (h.acquire task key timeout).room k = h.room k ∧
      (h.come task key timeout).entries.filter (fun a => a.key = k) = [] := by
  have hcome := hh.come hnew key timeout
  obtain ⟨hsettle, hentries⟩ := hcome.room_settle k
  obtain ⟨hsame, hnobody⟩ := hh.room_of_settled hset k
  rw [room_come_of_ne h task hne, hsame] at hsettle
  rw [room_come_of_ne h task hne, hnobody] at hentries
  refine ⟨?_, hentries⟩
  rcases acquire_cases (hcome.leads_settle.sound hcome) with ⟨w, -, htask, -, -, heq⟩ | ⟨heq, -⟩
  · rw [heq, room_giveUp, hsettle, htask]
    exact Room.update_of_visit? (hh.room_visit?_of_none hnew k) _
  · rw [heq]
    exact hsettle

/-- When a task inside leaves, the same is seen in the room of its key, and nothing in another. -/
theorem Sound.room_leave (hh : h.Sound) (hv : v ∈ h.visits) (hinside : v.isInside = true)
    (outcome : Outcome) (k : κ) :
    (h.depart v outcome).settle.room k = ((h.room k).finish v.task outcome).settle ∧
      (h.depart v outcome).entries.filter (fun a => a.key = k) =
        ((h.room k).finish v.task outcome).entries := by
  have hsettle := (hh.depart hv (hh.inside v hv hinside) outcome).room_settle k
  rwa [room_depart] at hsettle

/-- A task that is inside leaves, and to one that waits something else is done that changes its visit
only: the same is seen in the room of its key, and nothing in another. -/
theorem Sound.room_send (hh : h.Sound) (hset : h.Settled) (k : κ) (task : τ) (outcome : Outcome)
    {wait : Visit κ τ → Hall κ τ} {f : Visit κ τ → Visit κ τ}
    (hwait : ∀ v, v.task = task → (wait v).room k = (h.room k).update task f) :
    (match h.visit? task with
      | none => h
      | some v =>
        match v.stage with
        | .ended _ _ => h
        | .inside _ => (h.depart v outcome).settle
        | .waiting => wait v).room k =
      (match (h.room k).visit? task with
      | none => h.room k
      | some v =>
        match v.stage with
        | .ended _ _ => h.room k
        | .inside _ => ((h.room k).finish task outcome).settle
        | .waiting => (h.room k).update task f) ∧
    (match h.visit? task with
      | some v => if v.isInside then (h.depart v outcome).entries else []
      | none => []).filter (fun a => a.key = k) =
      match (h.room k).visit? task with
      | some v => if v.isInside then ((h.room k).finish task outcome).entries else []
      | none => [] := by
  rcases hh.visit?_cases k task with ⟨hvisit, hroom⟩ | ⟨v, hv, rfl, rfl, hvisit, hroom⟩ |
    ⟨v, hv, rfl, hkey, hvisit, hroom⟩
  · simp only [hvisit, hroom, List.filter_nil, and_self]
  · cases hstage : v.stage with
    | ended outcome time => simp [hvisit, hroom, hstage, Visit.isInside]
    | waiting => simpa [hvisit, hroom, hstage, Visit.isInside] using hwait v rfl
    | inside since =>
      have hinside : v.isInside = true := by simp [Visit.isInside, hstage]
      simpa [hvisit, hroom, hstage, hinside] using hh.room_leave hv hinside outcome v.key
  · obtain ⟨hsame, hnobody⟩ := hh.room_of_settled hset k
    cases hstage : v.stage with
    | ended outcome time => simp [hvisit, hroom, hstage, Visit.isInside]
    | waiting =>
      have hnothing := (hwait v rfl).trans (Room.update_of_visit? hroom f)
      simpa [hvisit, hroom, hstage, Visit.isInside] using hnothing
    | inside since =>
      have hinside : v.isInside = true := by simp [Visit.isInside, hstage]
      have hleave := hh.room_leave hv hinside outcome k
      rw [Room.finish, Room.update_of_visit? hroom, hsame, hnobody] at hleave
      simpa [hvisit, hroom, hstage, hinside] using hleave

theorem Sound.room_advance (hh : h.Sound) (nanos : Int) (k : κ) :
    (h.advance nanos).room k = (h.room k).advance nanos := by
  have hkey : ∀ v : Visit κ τ, (v.lapse (h.now + nanos)).key = v.key := fun v =>
    congrArg Call.key (Visit.call_lapse (h.now + nanos) v)
  have hbare : ∀ v : Visit κ τ, (v.lapse (h.now + nanos)).bare = v.bare.lapse (h.now + nanos) := by
    intro v
    have hdue : isDue (h.now + nanos) v.bare = isDue (h.now + nanos) v := rfl
    unfold Visit.lapse
    rw [hdue]
    split <;> rfl
  have hvisits : ((h.advance nanos).visits.filter fun v => v.key = k).map Visit.bare =
      ((h.visits.filter fun v => v.key = k).map Visit.bare).map (Visit.lapse (h.now + nanos)) := by
    rw [hh.visits_advance, List.filter_map, List.map_map, List.map_map]
    simp only [Function.comp_def, hkey, hbare]
  exact congrArg (Room.mk (h.now + nanos)) hvisits

/-- A command to a task that comes for the key, or to the clock, does to its room what it does to the
hall, and lets the same tasks in. -/
theorem Sound.room_obey (hh : h.Sound) (hset : h.Settled) (k : κ) (command : Command κ τ)
    (hacquire : ∀ task key timeout, command = .acquire task key timeout →
      key = k ∧ h.visit? task = none) :
    (h.obey command).room k = (h.room k).obey command ∧
      (h.admits command).filter (fun a => a.key = k) = (h.room k).admits command := by
  cases command with
  | acquire task key timeout =>
    obtain ⟨rfl, hnew⟩ := hacquire task key timeout rfl
    simp only [obey, admits, hnew, Option.isSome_none]
    exact hh.room_acquire hnew key timeout
  | dismiss task exit =>
    exact hh.room_send hset k task (Exit.outcome exit) fun v _ => room_tell h task exit k
  | cancel task =>
    exact hh.room_send hset k task .cancelled fun v htask => htask ▸ room_giveUp h v .cancelled k
  | advance nanos => exact ⟨hh.room_advance nanos k, rfl⟩

end Hall

end PuzzleContest.Lock
