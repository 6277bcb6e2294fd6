import PuzzleContest.Proofs.Lobby
import PuzzleContest.Proofs.Partition

/-!
# Keys do not contend

What becomes of those who come for a key of the keyed locks is the same as if nobody came for any other
key.  Two runs are compared: one with everything that happens, and one from which all that is done by
tasks that come for other keys is left out, while the clock goes on.  Seen from the key, both are the
same at every moment.

Main definitions:

- `Hall.concerns`, `Hall.Move.concerns`: what is done by tasks that come for a key, or by the clock.
- `sieve`: what is left of a run when the rest is left out.
- `Hall.Alike`: two halls show the same of a key.
- `Hall.Apart`: a hall, and one to which only tasks come that come for a key.

Main results:

- `Hall.Apart.obey`, `Hall.Apart.step`: the two stay alike.
- `Hall.alike_sieve`: no key contends with another one.
-/

namespace PuzzleContest.Lock

variable {κ τ : Type}

/-- What is left of a run when everything is left out that does not concern the state it meets. -/
def sieve {σ α : Type} (next : σ → α → σ) (concerns : σ → α → Bool) : σ → List α → List α
  | _, [] => []
  | s, a :: rest =>
    if concerns s a then a :: sieve next concerns (next s a) rest
    else sieve next concerns (next s a) rest

theorem sieve_append {σ α : Type} (next : σ → α → σ) (concerns : σ → α → Bool) (s : σ)
    (before after : List α) : sieve next concerns s (before ++ after) =
      sieve next concerns s before ++ sieve next concerns (before.foldl next s) after := by
  induction before generalizing s with
  | nil => rfl
  | cons a before ih =>
    rw [List.cons_append, sieve, sieve, ih, List.foldl_cons]
    split <;> rfl

namespace Hall

variable [DecidableEq κ] [DecidableEq τ] {h g : Hall κ τ} {v : Visit κ τ} {task : τ} {key k : κ}

/-! ## What concerns a key -/

/-- Whether a task has come for a key. -/
def hasComeFor (h : Hall κ τ) (k : κ) (task : τ) : Bool := (h.visit? task).any fun v => v.key = k

/-- Whether a command makes a new task come for a key, or is to one that has come for it, or to the
clock. -/
def concerns (k : κ) (h : Hall κ τ) : Command κ τ → Bool
  | .acquire task key _ => (h.visit? task).isNone && decide (key = k)
  | .dismiss task _ | .cancel task => h.hasComeFor k task
  | .advance _ => true

/-- Whether a move is one of a new task that comes for a key, or of one that has come for it, or of the
clock. -/
def Move.concerns (k : κ) (h : Hall κ τ) : Move κ τ → Bool
  | .come task key _ => (h.visit? task).isNone && decide (key = k)
  | .goIn task | .leave task _ | .quit task _ | .tell task _ => h.hasComeFor k task
  | .clock _ => true

theorem Sound.room_visit?_of_not_hasComeFor (hh : h.Sound) (hnot : h.hasComeFor k task = false) :
    (h.room k).visit? task = none := by
  rcases hh.visit?_cases k task with ⟨-, hroom⟩ | ⟨v, -, -, hkey, hvisit, -⟩ |
    ⟨v, -, -, -, -, hroom⟩
  · exact hroom
  · simp [hasComeFor, hvisit, hkey] at hnot
  · exact hroom

/-- A move that does not concern a key is not seen from it. -/
theorem Sound.room_step_of_not_concerns (hh : h.Sound) {move : Move κ τ}
    (hnot : move.concerns k h = false) : (h.step move).room k = h.room k := by
  cases move with
  | come task key timeout =>
    cases hvisit : h.visit? task with
    | none =>
      have hne : key ≠ k := by simpa [Move.concerns, hvisit] using hnot
      simp only [Hall.step, hvisit, Option.isSome_none]
      exact room_come_of_ne h task hne timeout
    | some v => simp only [Hall.step, hvisit, Option.isSome_some, if_true]
  | goIn | leave | quit | tell =>
    -- A task that has not come for the key can do nothing in its room.
    rw [hh.room_step (by simp)]
    simp only [Room.step, hh.room_visit?_of_not_hasComeFor hnot]
  | clock now => simp [Move.concerns] at hnot

/-- A command that does not concern a key is not seen from it. -/
theorem Sound.room_obey_of_not_concerns (hh : h.Sound) (hset : h.Settled) {command : Command κ τ}
    (hnot : h.concerns k command = false) : (h.obey command).room k = h.room k ∧
      (h.admits command).filter (fun a => a.key = k) = [] := by
  cases command with
  | acquire task key timeout =>
    cases hvisit : h.visit? task with
    | none =>
      have hne : key ≠ k := by simpa [concerns, hvisit] using hnot
      simp only [Hall.obey, admits, hvisit, Option.isSome_none]
      exact hh.room_acquire_of_ne hset hvisit hne timeout
    | some v => simp [Hall.obey, admits, hvisit]
  | dismiss task exit =>
    have hnone := hh.room_visit?_of_not_hasComeFor hnot
    obtain ⟨hroom, hentered⟩ := hh.room_obey hset k (.dismiss task exit) (by simp)
    rw [hroom, hentered]
    simp only [Room.obey, Room.dismiss, Room.admits, hnone, and_self]
  | cancel task =>
    have hnone := hh.room_visit?_of_not_hasComeFor hnot
    obtain ⟨hroom, hentered⟩ := hh.room_obey hset k (.cancel task) (by simp)
    rw [hroom, hentered]
    simp only [Room.obey, Room.cancel, Room.admits, hnone, and_self]
  | advance nanos => simp [concerns] at hnot

/-! ## A hall with others and one without -/

/-- Two halls show the same of a key, and to the second one only tasks have come that come for it. -/
structure Apart (k : κ) (h g : Hall κ τ) : Prop where
  sound : h.Sound
  sound_alone : g.Sound
  room_eq : h.room k = g.room k
  alone : ∀ v ∈ g.visits, v.key = k

omit [DecidableEq τ] in
theorem apart_empty (k : κ) : Apart k ({} : Hall κ τ) {} where
  sound := sound_empty
  sound_alone := sound_empty
  room_eq := rfl
  alone _ hv := absurd hv List.not_mem_nil

/-- A new task is new to both. -/
theorem Apart.visit?_eq_none (ha : Apart k h g) (hnew : h.visit? task = none) :
    g.visit? task = none := by
  have hroom := ha.sound.room_visit?_of_none hnew k
  rw [ha.room_eq] at hroom
  rcases ha.sound_alone.visit?_cases k task with ⟨hnone, -⟩ | ⟨v, -, -, -, -, hsome⟩ |
    ⟨v, hv, -, hkey, -⟩
  · exact hnone
  · simp [hroom] at hsome
  · exact absurd (ha.alone v hv) hkey

omit [DecidableEq κ] in
/-- What is done to a task that is there changes nobody's call. -/
theorem map_call_turn {may : Visit κ τ → Bool} {turn : Visit κ τ → Hall κ τ}
    (hturn : ∀ v, (turn v).visits.map Visit.call = h.visits.map Visit.call) :
    (match h.visit? task with
      | some v => if may v then turn v else h
      | none => h).visits.map Visit.call = h.visits.map Visit.call := by
  split
  · split
    · exact hturn _
    · rfl
  · rfl

/-- Whoever is there after a move was there before or is the newcomer. -/
theorem key_of_step {move : Move κ τ} (hv : v ∈ (h.step move).visits) :
    (∃ w ∈ h.visits, w.key = v.key) ∨ ∃ task timeout, move = .come task v.key timeout := by
  have hkept : (h.step move).visits.map Visit.call = h.visits.map Visit.call →
      ∃ w ∈ h.visits, w.key = v.key := by
    intro hcalls
    have hcall : v.call ∈ h.visits.map Visit.call := hcalls ▸ List.mem_map_of_mem hv
    obtain ⟨w, hw, heq⟩ := List.mem_map.1 hcall
    exact ⟨w, hw, congrArg Call.key heq⟩
  cases move with
  | come task key timeout =>
    simp only [Hall.step] at hv
    split at hv
    · exact .inl ⟨v, hv, rfl⟩
    · rcases List.mem_append.1 hv with hold | hnew
      · exact .inl ⟨v, hold, rfl⟩
      · rw [List.mem_singleton.1 hnew]
        exact .inr ⟨task, timeout, rfl⟩
  | goIn task => exact .inl (hkept (map_call_turn fun _ => map_call_update fun _ => rfl))
  | leave task outcome =>
    exact .inl (hkept (map_call_turn fun _ => map_call_finish _ _ _))
  | quit task outcome =>
    refine .inl (hkept (map_call_turn fun v => ?_))
    split <;> exact map_call_finish _ _ _
  | tell task exit => exact .inl (hkept (map_call_turn fun _ => map_call_update fun _ => rfl))
  | clock now => exact .inl (hkept rfl)

/-- So it is after a command. -/
theorem Sound.key_of_obey (hh : h.Sound) {command : Command κ τ}
    (hv : v ∈ (h.obey command).visits) :
    (∃ w ∈ h.visits, w.key = v.key) ∨ ∃ task timeout, command = .acquire task v.key timeout := by
  have hcall : v.call ∈ h.visits.map Visit.call ++ (h.call? command).toList := by
    rw [← hh.map_call_obey]
    exact List.mem_map_of_mem hv
  rcases List.mem_append.1 hcall with hold | hasked
  · obtain ⟨w, hw, heq⟩ := List.mem_map.1 hold
    exact .inl ⟨w, hw, congrArg Call.key heq⟩
  · cases command with
    | acquire task key timeout =>
      simp only [call?] at hasked
      split at hasked
      · simp at hasked
      · have heq : v.key = key := congrArg Call.key (List.mem_singleton.1 hasked)
        exact .inr ⟨task, timeout, by rw [heq]⟩
    | dismiss | cancel | advance => exact absurd hasked List.not_mem_nil

/-- A move that concerns the key is made in both halls, and one that does not in the first only. -/
theorem Apart.step (ha : Apart k h g) (move : Move κ τ) :
    if move.concerns k h then Apart k (h.step move) (g.step move) else Apart k (h.step move) g := by
  split
  · rename_i hmine
    have hcome : ∀ task key timeout, move = .come task key timeout →
        key = k ∧ h.visit? task = none := by
      rintro task key timeout rfl
      simpa [Move.concerns, and_comm] using hmine
    refine ⟨ha.sound.step move, ha.sound_alone.step move, ?_, fun v hv => ?_⟩
    · rw [ha.sound.room_step hcome, ha.room_eq, ha.sound_alone.room_step]
      exact fun task key timeout hmove =>
        ⟨(hcome task key timeout hmove).1, ha.visit?_eq_none (hcome task key timeout hmove).2⟩
    · rcases key_of_step hv with ⟨w, hw, hkey⟩ | ⟨task, timeout, hmove⟩
      · exact hkey ▸ ha.alone w hw
      · exact (hcome task v.key timeout hmove).1
  · rename_i hnot
    refine ⟨ha.sound.step move, ha.sound_alone, ?_, ha.alone⟩
    rw [ha.sound.room_step_of_not_concerns (by simpa using hnot), ha.room_eq]

/-- A command that concerns the key is given in both halls, and one that does not in the first only. -/
theorem Apart.obey (ha : Apart k h g) (hset : h.Settled) (hset' : g.Settled)
    (command : Command κ τ) :
    if h.concerns k command then
      Apart k (h.obey command) (g.obey command) ∧
        (h.admits command).filter (fun a => a.key = k) =
          (g.admits command).filter (fun a => a.key = k)
    else
      Apart k (h.obey command) g ∧ (h.admits command).filter (fun a => a.key = k) = [] := by
  have hsound := (ha.sound.leads_obey hset command).1.sound ha.sound
  split
  · rename_i hmine
    have hnew : ∀ task key timeout, command = .acquire task key timeout →
        key = k ∧ h.visit? task = none := by
      rintro task key timeout rfl
      simpa [concerns, and_comm] using hmine
    have hnew' : ∀ task key timeout, command = .acquire task key timeout →
        key = k ∧ g.visit? task = none := fun task key timeout hcommand =>
      ⟨(hnew task key timeout hcommand).1, ha.visit?_eq_none (hnew task key timeout hcommand).2⟩
    obtain ⟨hroom, hentered⟩ := ha.sound.room_obey hset k _ hnew
    obtain ⟨hroom', hentered'⟩ := ha.sound_alone.room_obey hset' k _ hnew'
    refine ⟨⟨hsound, (ha.sound_alone.leads_obey hset' command).1.sound ha.sound_alone, ?_, ?_⟩, ?_⟩
    · rw [hroom, hroom', ha.room_eq]
    · intro v hv
      rcases ha.sound_alone.key_of_obey hv with ⟨w, hw, hkey⟩ | ⟨task, timeout, hcommand⟩
      · exact hkey ▸ ha.alone w hw
      · exact (hnew task v.key timeout hcommand).1
    · rw [hentered, hentered', ha.room_eq]
  · rename_i hnot
    obtain ⟨hroom, hentered⟩ := ha.sound.room_obey_of_not_concerns hset (by simpa using hnot)
    exact ⟨⟨hsound, ha.sound_alone, hroom.trans ha.room_eq, ha.alone⟩, hentered⟩

/-! ## Whole runs -/

theorem Apart.run (ha : Apart k h g) (moves : List (Move κ τ)) :
    Apart k (h.run moves) (g.run (sieve Hall.step (fun h move => move.concerns k h) h moves)) := by
  induction moves generalizing h g with
  | nil => exact ha
  | cons move moves ih =>
    have hstep := ha.step move
    rw [sieve]
    split
    · rename_i hmine
      rw [if_pos hmine] at hstep
      exact ih hstep
    · rename_i hnot
      rw [if_neg hnot] at hstep
      exact ih hstep

theorem Apart.obeyAll (ha : Apart k h g) (hset : h.Settled) (hset' : g.Settled)
    (commands : List (Command κ τ)) :
    Apart k (h.obeyAll commands) (g.obeyAll (sieve Hall.obey (concerns k) h commands)) ∧
      (h.admissions commands).filter (fun a => a.key = k) =
        (g.admissions (sieve Hall.obey (concerns k) h commands)).filter (fun a => a.key = k) := by
  induction commands generalizing h g with
  | nil => exact ⟨ha, rfl⟩
  | cons command commands ih =>
    have hobey := ha.obey hset hset' command
    have hsettled := (ha.sound.leads_obey hset command).2
    rw [sieve]
    split
    · rename_i hmine
      rw [if_pos hmine] at hobey
      obtain ⟨hnext, hentered⟩ := hobey
      obtain ⟨hrest, hlater⟩ := ih hnext hsettled (ha.sound_alone.leads_obey hset' command).2
      refine ⟨hrest, ?_⟩
      rw [admissions, admissions, List.filter_append, List.filter_append, hentered, hlater]
    · rename_i hnot
      rw [if_neg hnot] at hobey
      obtain ⟨hnext, hentered⟩ := hobey
      obtain ⟨hrest, hlater⟩ := ih hnext hsettled hset'
      refine ⟨hrest, ?_⟩
      rw [admissions, List.filter_append, hentered, hlater, List.nil_append]

/-- Two halls show the same of a key: the same clock, the same visits with the same stages and times,
and the same entry of its lock, if it has one. -/
structure Alike (k : κ) (h g : Hall κ τ) : Prop where
  now_eq : h.now = g.now
  visits_eq : (h.visits.filter fun v => v.key = k).map Visit.bare =
    (g.visits.filter fun v => v.key = k).map Visit.bare
  entry_eq : (h.locks.find? k).map (fun e => (e.users, e.holder, e.waiters)) =
    (g.locks.find? k).map (fun e => (e.users, e.holder, e.waiters))

omit [DecidableEq τ] in
theorem Apart.alike (ha : Apart k h g) : Alike k h g where
  now_eq := congrArg Room.now ha.room_eq
  visits_eq := congrArg Room.visits ha.room_eq
  entry_eq := by rw [ha.sound.entry_eq, ha.sound_alone.entry_eq, ha.room_eq]

/-- What concerns a lobby is what concerns the hall that it stands for. -/
theorem sieve_lobby {b : Lobby κ τ} (hb : b.Sound) (k : κ) (moves : List (Move κ τ)) :
    sieve Lobby.step (fun b move => move.concerns k b.hall) b moves =
      sieve Hall.step (fun h move => move.concerns k h) b.hall moves := by
  induction moves generalizing b with
  | nil => rfl
  | cons move moves ih =>
    have hrest := ih (hb.step move)
    rw [(hb.hall_step move).1] at hrest
    simp only [sieve, hrest]

/-- What a hall shows of a key, and who comes in for it, is the same as if nobody came for any other
key: whatever is commanded, and whatever small moves are made while every task goes to the lock that it
found when it came.  It is so at every moment, since what is left of the beginning of a run is the
beginning of what is left of the run. -/
theorem alike_sieve (k : κ) :
    (∀ commands later : List (Command κ τ),
      let left := sieve obey (concerns k) {} commands
      sieve obey (concerns k) {} (commands ++ later) =
          left ++ sieve obey (concerns k) (obeyAll {} commands) later ∧
        Alike k (obeyAll {} commands) (obeyAll {} left) ∧
        (admissions {} commands).filter (fun a => a.key = k) =
          (admissions {} left).filter (fun a => a.key = k) ∧
        ∀ v ∈ (obeyAll {} left).visits, v.key = k) ∧
    ∀ moves later : List (Move κ τ),
      let left := sieve Lobby.step (fun b move => move.concerns k b.hall) {} moves
      sieve Lobby.step (fun b move => move.concerns k b.hall) {} (moves ++ later) =
          left ++ sieve Lobby.step (fun b move => move.concerns k b.hall) (Lobby.run {} moves) later ∧
        Alike k (Lobby.run {} moves).hall (Lobby.run {} left).hall ∧
        ∀ v ∈ (Lobby.run {} left).visits, v.key = k := by
  refine ⟨fun commands later => ?_, fun moves later => ?_⟩
  · obtain ⟨hapart, hentered⟩ := (apart_empty k).obeyAll settled_empty settled_empty commands
    exact ⟨sieve_append obey (concerns k) {} commands later, hapart.alike, hentered, hapart.alone⟩
  · have hempty : Lobby.Sound ({} : Lobby κ τ) := Lobby.sound_empty
    have hapart := (apart_empty k).run moves
    have hall : (Lobby.run {} moves).hall = ({} : Hall κ τ).run moves := hempty.hall_run moves
    have hleft : (Lobby.run {} (sieve Lobby.step (fun b move => move.concerns k b.hall) {}
        moves)).hall = ({} : Hall κ τ).run (sieve step (fun h move => move.concerns k h) {} moves) := by
      rw [hempty.hall_run, sieve_lobby hempty]
      rfl
    refine ⟨sieve_append Lobby.step _ {} moves later, ?_, fun v hv => ?_⟩
    · rw [hall, hleft]
      exact hapart.alike
    · exact hapart.alone v (hleft ▸ hv)

end Hall

end PuzzleContest.Lock
