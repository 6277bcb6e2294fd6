import PuzzleContest.Relay.Listener
import PuzzleContest.Relay.Roster

/-!
# Serving an audience

The broadcast hub sends a message to one listener, or sink, after another.  A listener that does not
take it in time is dropped from the competition and told to close, and the next one is served.  A
service proceeds in small steps: those that arrange what comes next, and the ends of sends and closes.

Main definitions:

- `Audience`: the listeners, and the roster that names them.
- `Service`: a message, whom it still has to reach, and what is under way.
- `Service.arrange?`, `Service.conclude?`: the two kinds of steps.
-/

namespace PuzzleContest.Relay

variable {μ : Type}

/-- The listeners in the order in which they are served, and the roster. -/
structure Audience (μ : Type) where
  listeners : List (Listener μ) := []
  roster : Roster := {}
deriving DecidableEq, Repr

namespace Audience

/-- The listener of a name. -/
def find? (a : Audience μ) (name : String) : Option (Listener μ) :=
  a.listeners.find? fun l => l.name = name

/-- Change the listener of a name. -/
def update (a : Audience μ) (name : String) (f : Listener μ → Listener μ) : Audience μ :=
  { a with listeners := a.listeners.map fun l => if l.name = name then f l else l }

/-- The listeners of a competition in the order in which they are served. -/
def present (a : Audience μ) (competition : String) : List String :=
  (a.listeners.map (·.name)).filter fun name => name ∈ a.roster.members competition

/-- A message arrives at a listener. -/
def receive (a : Audience μ) (name : String) (m : Message μ) : Audience μ :=
  a.update name fun l => l.receive m

/-- A listener is dropped from a competition and told to close. -/
def drop (a : Audience μ) (competition name : String) : Audience μ :=
  { a with roster := a.roster.discard competition name }.update name Listener.dismiss

end Audience

/-! ## Errands -/

/-- How far the service of one listener is. -/
inductive Stage where
  /-- A send is under way, and will succeed or not. -/
  | sending (success : Bool)
  /-- The send has failed. -/
  | failed
  /-- The listener has been dropped, and closes. -/
  | closing
deriving DecidableEq, Repr

/-- The service of one listener, and the nanoseconds until its stage is over. -/
structure Errand where
  listener : String
  stage : Stage
  left : Nat
deriving DecidableEq, Repr

/-- Start sending to a listener. -/
def Errand.send (patience : Option Nat) (l : Listener μ) : Errand :=
  ⟨l.name, .sending (l.send patience).success, (l.send patience).after⟩

/-- Start closing a listener, if that can be done. -/
def Errand.close? (l : Listener μ) : Option Errand :=
  match l.farewell with
  | .absent => none
  | _ => some ⟨l.name, .closing, l.close.after⟩

/-- The number of steps that an errand takes at most. -/
def Errand.load (e : Errand) : Nat :=
  match e.stage with
  | .sending _ => 3
  | .failed => 2
  | .closing => 1

/-! ## Services -/

/-- A message on its way: the listeners who are still to be served, and the errand under way. -/
structure Service (μ : Type) where
  message : Message μ
  rest : List String
  errand : Option Errand := none
deriving DecidableEq, Repr

namespace Service

/-- A message sets out to the listeners of its competition. -/
def start (a : Audience μ) (m : Message μ) : Service μ :=
  { message := m, rest := a.present m.competition }

/-- Whether all listeners have been served. -/
def isOver (s : Service μ) : Bool := s.rest.isEmpty && s.errand.isNone

/-- The number of steps that a service takes at most. -/
def load (s : Service μ) : Nat := 4 * s.rest.length + (s.errand.map (·.load)).getD 0

/-- Go on to the next listener, or drop one that a send to has failed. -/
def arrange? (patience : Option Nat) (a : Audience μ) (s : Service μ) :
    Option (Audience μ × Service μ) :=
  match s.errand, s.rest with
  | none, [] => none
  | none, name :: rest => some (a, { s with rest, errand := (a.find? name).map (.send patience) })
  | some ⟨name, .failed, _⟩, _ =>
    some (a.drop s.message.competition name, { s with errand := (a.find? name).bind Errand.close? })
  | some _, _ => none

/-- The send or the close under way ends, if it needs no more time. -/
def conclude? (a : Audience μ) (s : Service μ) : Option (Audience μ × Service μ) :=
  match s.errand with
  | some ⟨name, .sending true, 0⟩ => some (a.receive name s.message, { s with errand := none })
  | some ⟨name, .sending false, 0⟩ => some (a, { s with errand := some ⟨name, .failed, 0⟩ })
  | some ⟨_, .closing, 0⟩ => some (a, { s with errand := none })
  | _ => none

/-- How the send or the close under way ends, by what its listener does. -/
def ending (patience : Option Nat) (a : Audience μ) (s : Service μ) : Ending :=
  match s.errand with
  | some ⟨name, .sending false, _⟩ =>
    if ∃ l ∈ a.find? name, l.Refuses patience then .badly else .late
  | some ⟨name, .closing, _⟩ => ((a.find? name).map (·.closeEnding)).getD .well
  | _ => .well

/-- Time passes, in nanoseconds. -/
def elapse (s : Service μ) (nanos : Nat) : Service μ :=
  { s with errand := s.errand.map fun e => { e with left := e.left - nanos } }

theorem load_errand_le (o : Option Errand) : (o.map (·.load)).getD 0 ≤ 3 := by
  rcases o with _ | ⟨_, _ | _ | _, _⟩ <;> simp [Errand.load]

theorem load_close?_le (o : Option (Listener μ)) :
    ((o.bind Errand.close?).map (·.load)).getD 0 ≤ 1 := by
  rcases o with _ | l
  · simp
  · simp only [Option.bind_some, Errand.close?]
    split <;> simp [Errand.load]

theorem load_arrange? {patience : Option Nat} {a b : Audience μ} {s t : Service μ}
    (h : s.arrange? patience a = some (b, t)) : t.load < s.load := by
  unfold arrange? at h
  split at h
  · simp at h
  · rename_i name rest he hr
    simp only [Option.some.injEq, Prod.mk.injEq] at h
    rw [← h.2]
    have := load_errand_le ((a.find? name).map (Errand.send patience))
    simp only [load, he, hr, List.length_cons, Option.map_none, Option.getD_none]
    omega
  · rename_i name left he
    simp only [Option.some.injEq, Prod.mk.injEq] at h
    rw [← h.2]
    have := load_close?_le (a.find? name)
    have : Errand.load ⟨name, .failed, left⟩ = 2 := rfl
    simp only [load, he, Option.map_some, Option.getD_some]
    omega
  · simp at h

theorem load_conclude? {a b : Audience μ} {s t : Service μ}
    (h : s.conclude? a = some (b, t)) : t.load < s.load := by
  unfold conclude? at h
  split at h
  all_goals first
    | (simp at h; done)
    | (rename_i he
       simp only [Option.some.injEq, Prod.mk.injEq] at h
       rw [← h.2]
       simp [load, he, Errand.load])

end Service

/-! ## The number of listeners stays the same -/

namespace Audience

@[simp]
theorem length_update (a : Audience μ) (name : String) (f : Listener μ → Listener μ) :
    (a.update name f).listeners.length = a.listeners.length := by
  simp [update]

theorem length_present_le (a : Audience μ) (competition : String) :
    (a.present competition).length ≤ a.listeners.length := by
  unfold present
  exact Nat.le_trans (List.length_filter_le _ _) (by simp)

end Audience

theorem Service.length_arrange? {patience : Option Nat} {a b : Audience μ} {s t : Service μ}
    (h : s.arrange? patience a = some (b, t)) : b.listeners.length = a.listeners.length := by
  unfold Service.arrange? at h
  split at h
  all_goals first
    | (simp at h; done)
    | (simp only [Option.some.injEq, Prod.mk.injEq] at h
       rw [← h.1]
       try simp [Audience.drop])

theorem Service.length_conclude? {a b : Audience μ} {s t : Service μ}
    (h : s.conclude? a = some (b, t)) : b.listeners.length = a.listeners.length := by
  unfold Service.conclude? at h
  split at h
  all_goals first
    | (simp at h; done)
    | (simp only [Option.some.injEq, Prod.mk.injEq] at h
       rw [← h.1]
       try simp [Audience.receive])

end PuzzleContest.Relay
