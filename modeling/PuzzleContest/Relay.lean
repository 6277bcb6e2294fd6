import PuzzleContest.Relay.Audience

/-!
# The relay: the broadcast hub

A relay is the broadcast hub: it passes the events of competitions on to their listeners.  Published
events wait in a queue.  A courier is a task that dispatches them: it takes one after the other from the
queue and delivers it.  Whoever changes the roster or delivers an event takes a turn at it, which is the
registry lock, first come, first served, and a delivery keeps its turn to the end.

Who starts the relay hires a courier, unless the one that the relay knows of is still there.  Who stops
it calls that courier off, waits until it is gone, and then has the relay forget whomever it knows.  A
courier heeds the call when it comes to it: it puts down what it has, and goes.  But if the send or the
close that it waited for has ended of itself in the meantime, it takes up that ending instead, and the
call is missed.

What a relay does without time passing it does in small steps, until it can do nothing but wait.

Main definitions:

- `Relay`: the audience, the queue, the couriers, those who stop them, and the turns that wait.
- `Relay.heed?`, `Relay.resume?`: a courier that was called off goes or misses the call; one who
  stopped it goes on.
- `Relay.arrange?`, `Relay.conclude?`: one small step; only the second kind ends a send or a close.
- `Relay.settle`: all the steps that can be done without time passing.
- `Relay.act`, `Relay.obey`: a command is given, without and with all that follows at once.
- `Relay.advance`: time passes.
- `Relay.unfinished`: the published events that are not done with.
-/

namespace PuzzleContest

namespace Relay

/-- An event of a competition; without a body it cannot be written as a message. -/
structure Event (μ : Type) where
  competition : String
  body : Option μ
deriving DecidableEq, Repr

/-- The message of an event. -/
def Event.message? {μ : Type} (e : Event μ) : Option (Message μ) :=
  e.body.map fun body => ⟨e.competition, body⟩

/-- On whose behalf an event is delivered. -/
inductive Sender where
  /-- A courier, with the number of the event that it took from the queue. -/
  | courier (name number : Nat)
  /-- A caller, known by a ticket. -/
  | caller (ticket : Nat)
deriving DecidableEq, Repr

/-- A turn at the roster. -/
inductive Turn (μ : Type) where
  | enroll (ticket : Nat) (competition listener : String)
  | withdraw (ticket : Nat) (competition listener : String)
  | deliver (sender : Sender) (m : Message μ)
deriving DecidableEq, Repr

/-- A delivery under way. -/
structure Delivery (μ : Type) where
  sender : Sender
  service : Service μ
  /-- Whether the last send or close has ended of itself, and the sender has not taken it up yet. -/
  answered : Bool := false
deriving DecidableEq, Repr

/-- A task that dispatches events, until it is gone. -/
structure Courier where
  name : Nat
  /-- Whether it has been called off, and has not come to it yet. -/
  called : Bool := false
deriving DecidableEq, Repr

/-- A caller who stops the relay, and waits until a courier is gone. -/
structure Stop where
  ticket : Nat
  courier : Nat
deriving DecidableEq, Repr

end Relay

/-- A relay for messages of a type. -/
structure Relay (μ : Type) where
  /-- The nanoseconds that a listener has for taking a message, if it has any time. -/
  patience : Option Nat
  audience : Relay.Audience μ := {}
  queue : List (Relay.Event μ) := []
  couriers : List Relay.Courier := []
  /-- The courier that starting and stopping go by, if any; it may be gone. -/
  known : Option Nat := none
  /-- How many couriers have been hired so far. -/
  hired : Nat := 0
  stops : List Relay.Stop := []
  /-- The delivery that has the turn at the roster, if any. -/
  delivery : Option (Relay.Delivery μ) := none
  /-- The turns that wait for the roster. -/
  turns : List (Relay.Turn μ) := []
  /-- The callers who wait until all published events are done with. -/
  joiners : List Nat := []
  /-- How many events have been taken from the queue. -/
  pulled : Nat := 0
  /-- How many of them have been dispatched to the end. -/
  completed : Nat := 0
  /-- How many of them were in the hands of a courier that went. -/
  lost : Nat := 0
deriving DecidableEq, Repr

namespace Relay

variable {μ : Type}

/-! ## Views -/

/-- Whether an event is delivered on behalf of a courier. -/
def Sender.isCourier : Sender → Bool
  | .courier _ _ => true
  | .caller _ => false

/-- Whether an event is delivered on behalf of the courier of a name. -/
def Sender.isOf (name : Nat) : Sender → Bool
  | .courier other _ => other = name
  | .caller _ => false

/-- The message that waits for its turn, with the one who has it delivered. -/
def Turn.parcel? : Turn μ → Option (Sender × Message μ)
  | .deliver sender m => some (sender, m)
  | _ => none

/-- The messages under way, with those who have them delivered, in the order of their turns. -/
def parcels (r : Relay μ) : List (Sender × Message μ) :=
  (r.delivery.map fun d => (d.sender, d.service.message)).toList ++ r.turns.filterMap Turn.parcel?

/-- The names of the couriers. -/
def names (r : Relay μ) : List Nat := r.couriers.map (·.name)

/-- Whether the courier that starting and stopping go by is there. -/
def running (r : Relay μ) : Bool := r.known.any (· ∈ r.names)

/-- The number of published events in the hands of couriers. -/
def inFlight (r : Relay μ) : Nat := r.parcels.countP (·.1.isCourier)

/-- The number of published events that are not done with. -/
def unfinished (r : Relay μ) : Nat := r.queue.length + r.inFlight

/-- Whether a courier has been called off, and has not come to it yet. -/
def isCalled (r : Relay μ) (name : Nat) : Bool := (⟨name, true⟩ : Courier) ∈ r.couriers

/-- Whether what a courier waited for has ended of itself, and it has not taken that up yet. -/
def isAnswered (r : Relay μ) (name : Nat) : Bool :=
  r.delivery.any fun d => d.sender.isOf name && d.answered

/-- Whether a courier has nothing in its hands and may take an event. -/
def isIdle (r : Relay μ) (name : Nat) : Bool :=
  (⟨name, false⟩ : Courier) ∈ r.couriers ∧ ∀ p ∈ r.parcels, ¬ p.1.isOf name

/-- Whether a delivery must wait for its courier to come to being called off. -/
def isHalted (r : Relay μ) : Sender → Bool
  | .courier name _ => r.isCalled name
  | .caller _ => false

/-- The number of listeners of a competition. -/
def listenerCount (r : Relay μ) (competition : String) : Nat := r.audience.roster.count competition

/-- The ticket of the caller who delivers. -/
def Sender.ticket? : Sender → Option Nat
  | .courier _ _ => none
  | .caller ticket => some ticket

/-- The ticket of the caller who waits for a turn. -/
def Turn.ticket? : Turn μ → Option Nat
  | .enroll ticket _ _ | .withdraw ticket _ _ => some ticket
  | .deliver sender _ => sender.ticket?

/-- The tickets of all callers who wait for something, ascending. -/
def pending (r : Relay μ) : List Nat :=
  let delivering := (r.delivery.bind (·.sender.ticket?)).toList
  (delivering ++ r.turns.filterMap (·.ticket?) ++ r.stops.map (·.ticket) ++ r.joiners).mergeSort

/-- The nanoseconds that the delivery under way waits, if there is one that does. -/
def wait? (r : Relay μ) : Option Nat :=
  r.delivery.bind fun d => d.service.errand.map (·.left)

/-! ## Small steps -/

/-- When the last published event is done with, those who waited for that are let go. -/
def release (r : Relay μ) : Relay μ :=
  { r with joiners := if r.unfinished = 0 then [] else r.joiners }

/-- A courier goes, and what it had in its hands is lost. -/
def quit (r : Relay μ) (name : Nat) : Relay μ :=
  release { r with
    couriers := r.couriers.filter (·.name ≠ name)
    delivery := r.delivery.filter fun d => !d.sender.isOf name
    turns := r.turns.filter fun t => !(t.parcel?.any (·.1.isOf name))
    lost := r.lost + r.parcels.countP (·.1.isOf name) }

/-- A courier misses that it was called off, and takes up what it waited for. -/
def miss (r : Relay μ) (name : Nat) : Relay μ :=
  { r with
    couriers := r.couriers.map fun c => if c.name = name then ⟨name, false⟩ else c
    delivery := r.delivery.map fun d => { d with answered := false } }

/-- A courier that was called off comes to it. -/
def heed? (r : Relay μ) (name : Nat) : Option (Relay μ) :=
  if r.isCalled name then some (if r.isAnswered name then r.miss name else r.quit name) else none

/-- Who has stopped a courier that is gone goes on; the relay forgets whomever it knew. -/
def resume? (r : Relay μ) (s : Stop) : Option (Relay μ) :=
  if s ∈ r.stops ∧ s.courier ∉ r.names then
    some { r with stops := r.stops.erase s, known := none }
  else none

/-- A courier, if idle, takes the next event; one that cannot be written is done with. -/
def pull? (r : Relay μ) (name : Nat) : Option (Relay μ) :=
  match r.isIdle name, r.queue with
  | true, e :: queue =>
    match e.message? with
    | none => some (release { r with queue, pulled := r.pulled + 1, completed := r.completed + 1 })
    | some m => some { r with
        queue, pulled := r.pulled + 1, turns := r.turns ++ [.deliver (.courier name r.pulled) m] }
  | _, _ => none

/-- Take a turn at the roster. -/
def take (r : Relay μ) : Turn μ → Relay μ
  | .enroll _ competition listener =>
    { r with audience.roster := r.audience.roster.add competition listener }
  | .withdraw _ competition listener =>
    { r with audience.roster := r.audience.roster.discard competition listener }
  | .deliver sender m => { r with delivery := some { sender, service := .start r.audience m } }

/-- The first turn that waits is taken, if no delivery is under way. -/
def nextTurn? (r : Relay μ) : Option (Relay μ) :=
  match r.delivery, r.turns with
  | none, t :: turns =>
    if t.parcel?.any (r.isHalted ·.1) then none else some (take { r with turns } t)
  | _, _ => none

/-- The delivery comes to its end. -/
def finish (r : Relay μ) : Sender → Relay μ
  | .courier _ _ => release { r with delivery := none, completed := r.completed + 1 }
  | .caller _ => { r with delivery := none }

/-- The delivery under way ends if it is over, or arranges what comes next. -/
def proceed? (r : Relay μ) : Option (Relay μ) :=
  match r.delivery with
  | none => none
  | some d =>
    if r.isHalted d.sender then none
    else if d.service.isOver then some (r.finish d.sender)
    else
      (d.service.arrange? r.patience r.audience).map fun x =>
        { r with audience := x.1, delivery := some { d with service := x.2, answered := false } }

/-- One step that arranges something. -/
def arrange? (r : Relay μ) : Option (Relay μ) :=
  ((((r.names.findSome? r.heed?).or (r.stops.findSome? r.resume?)).or
    (r.names.findSome? r.pull?)).or r.proceed?).or r.nextTurn?

/-- The send or the close under way ends, if it needs no more time. -/
def conclude? (r : Relay μ) : Option (Relay μ) :=
  match r.delivery with
  | none => none
  | some d =>
    (d.service.conclude? r.audience).map fun x =>
      { r with
        audience := x.1
        delivery := some { d with
          service := x.2, answered := (d.service.ending r.patience r.audience).ofItself } }

/-! ## The steps come to an end -/

/-- More than the number of steps that one delivery takes. -/
def span (r : Relay μ) : Nat := 4 * r.audience.listeners.length + 1

/-- The number of steps that a delivery takes at most. -/
def Delivery.load (d : Delivery μ) : Nat := d.service.load + 1

/-- A bound for the number of steps that can be done without time passing. -/
def load (r : Relay μ) : Nat :=
  3 * r.queue.length * r.span + 2 * r.turns.length * r.span + r.couriers.countP (·.called) +
    r.stops.length + (r.delivery.map (·.load)).getD 0

theorem span_pos (r : Relay μ) : 0 < r.span := by simp [span]

theorem load_release (r : Relay μ) : r.release.load = r.load := rfl

theorem countP_called_filter_lt {couriers : List Courier} {name : Nat}
    (h : ⟨name, true⟩ ∈ couriers) :
    (couriers.filter (·.name ≠ name)).countP (·.called) < couriers.countP (·.called) := by
  obtain ⟨before, after, rfl⟩ := List.append_of_mem h
  have hbefore := (List.filter_sublist (l := before) (p := (·.name ≠ name))).countP_le (p := (·.called))
  have hafter := (List.filter_sublist (l := after) (p := (·.name ≠ name))).countP_le (p := (·.called))
  simp only [List.filter_append, List.countP_append, List.countP_cons,
    List.filter_cons] at hbefore hafter ⊢
  simp only [ne_eq, not_true_eq_false, decide_false, Bool.false_eq_true, if_false, if_true] at *
  omega

/-- A courier that misses the call is one fewer who was called off, as is one that goes. -/
theorem countP_called_map_le (couriers : List Courier) (name : Nat) :
    (couriers.map fun c => if c.name = name then ⟨name, false⟩ else c).countP (·.called) ≤
      (couriers.filter (·.name ≠ name)).countP (·.called) := by
  rw [List.countP_map, List.countP_filter]
  apply List.countP_mono_left
  intro c _ h
  by_cases hname : c.name = name <;> simp_all

theorem load_heed? {r s : Relay μ} {name : Nat} (h : r.heed? name = some s) : s.load < r.load := by
  unfold heed? at h
  split at h
  · rename_i hcalled
    have hlt := countP_called_filter_lt (of_decide_eq_true hcalled)
    split at h <;> cases h
    · have hle := countP_called_map_le r.couriers name
      have hload : (((r.delivery.map fun d => { d with answered := false }).map
          (·.load)).getD 0) = (r.delivery.map (·.load)).getD 0 := by
        rw [Option.map_map]
        rfl
      simp only [load, span, miss, hload]
      omega
    · have hturns : (r.turns.filter fun t => !(t.parcel?.any (·.1.isOf name))).length ≤
          r.turns.length := List.length_filter_le _ _
      have hdelivery : (((r.delivery.filter fun d => !d.sender.isOf name).map
          (·.load)).getD 0) ≤ (r.delivery.map (·.load)).getD 0 := by
        rcases r.delivery with _ | d
        · exact Nat.le_refl _
        · by_cases hmine : d.sender.isOf name <;> simp [Option.filter, hmine]
      have hspan := Nat.mul_le_mul_right r.span (Nat.mul_le_mul_left 2 hturns)
      rw [quit, load_release]
      simp only [load, span] at *
      omega
  · simp at h

theorem load_resume? {r s : Relay μ} {stop : Stop} (h : r.resume? stop = some s) :
    s.load < r.load := by
  unfold resume? at h
  split at h
  · rename_i hmem
    cases h
    have hlength := List.length_erase_of_mem hmem.1
    have hpos := List.length_pos_of_mem hmem.1
    simp only [load, span, hlength]
    omega
  · simp at h

theorem load_pull? {r s : Relay μ} {name : Nat} (h : r.pull? name = some s) : s.load < r.load := by
  unfold pull? at h
  split at h
  · rename_i e queue _ hq
    have := r.span_pos
    split at h <;> cases h
    · rw [load_release]
      simp only [load, span, hq, List.length_cons] at *
      simp only [Nat.mul_add, Nat.add_mul] at *
      omega
    · simp only [load, span, hq, List.length_cons, List.length_append, List.length_nil] at *
      simp only [Nat.mul_add, Nat.add_mul] at *
      omega
  · simp at h

theorem load_nextTurn? {r s : Relay μ} (h : r.nextTurn? = some s) : s.load < r.load := by
  unfold nextTurn? at h
  split at h
  · rename_i t turns hd ht
    have := r.span_pos
    split at h
    · simp at h
    cases h
    cases t with
    | enroll | withdraw =>
      simp only [load, take, span, hd, ht, List.length_cons] at *
      simp only [Nat.mul_add, Nat.add_mul] at *
      omega
    | deliver sender m =>
      have hp := r.audience.length_present_le m.competition
      simp only [load, Delivery.load, take, span, hd, ht, List.length_cons, Service.load,
        Service.start, Option.map_some, Option.map_none, Option.getD_some, Option.getD_none] at *
      simp only [Nat.mul_add, Nat.add_mul] at *
      omega
  · simp at h

theorem load_finish {r : Relay μ} {d : Delivery μ} (h : r.delivery = some d) :
    (r.finish d.sender).load < r.load := by
  unfold finish
  split
  · rw [load_release]
    simp only [load, Delivery.load, span, h, Option.map_some, Option.map_none, Option.getD_some,
      Option.getD_none]
    omega
  · simp only [load, Delivery.load, span, h, Option.map_some, Option.map_none, Option.getD_some,
      Option.getD_none]
    omega

theorem load_serve {r : Relay μ} {d : Delivery μ} (hd : r.delivery = some d)
    {x : Audience μ × Service μ} (hl : x.2.load < d.service.load)
    (hn : x.1.listeners.length = r.audience.listeners.length) (answered : Bool) :
    load { r with audience := x.1, delivery := some { d with service := x.2, answered } } <
      r.load := by
  simp only [load, Delivery.load, span, hd, hn, Option.map_some, Option.getD_some]
  omega

theorem load_proceed? {r s : Relay μ} (h : r.proceed? = some s) : s.load < r.load := by
  unfold proceed? at h
  split at h
  · simp at h
  · rename_i d hd
    split at h
    · simp at h
    split at h
    · cases h
      exact load_finish hd
    · obtain ⟨x, hx, rfl⟩ := Option.map_eq_some_iff.mp h
      exact load_serve hd (Service.load_arrange? hx) (Service.length_arrange? hx) false

theorem load_arrange? {r s : Relay μ} (h : r.arrange? = some s) : s.load < r.load := by
  simp only [arrange?, Option.or_eq_some_iff] at h
  rcases h with (((h | ⟨_, h⟩) | ⟨_, h⟩) | ⟨_, h⟩) | ⟨_, h⟩
  · obtain ⟨name, -, h⟩ := List.exists_of_findSome?_eq_some h
    exact load_heed? h
  · obtain ⟨stop, -, h⟩ := List.exists_of_findSome?_eq_some h
    exact load_resume? h
  · obtain ⟨name, -, h⟩ := List.exists_of_findSome?_eq_some h
    exact load_pull? h
  · exact load_proceed? h
  · exact load_nextTurn? h

theorem load_conclude? {r s : Relay μ} (h : r.conclude? = some s) : s.load < r.load := by
  unfold conclude? at h
  split at h
  · simp at h
  · rename_i d hd
    obtain ⟨x, hx, rfl⟩ := Option.map_eq_some_iff.mp h
    exact load_serve hd (Service.load_conclude? hx) (Service.length_conclude? hx) _

/-! ## Settling -/

/-- One small step of either kind. -/
def step? (r : Relay μ) : Option (Relay μ) := r.arrange?.or r.conclude?

theorem load_step? {r s : Relay μ} (h : r.step? = some s) : s.load < r.load := by
  simp only [step?, Option.or_eq_some_iff] at h
  rcases h with h | ⟨_, h⟩
  · exact load_arrange? h
  · exact load_conclude? h

/-- Everything happens that can happen without time passing. -/
def settle (r : Relay μ) : Relay μ :=
  match _h : r.step? with
  | some s => settle s
  | none => r
termination_by r.load
decreasing_by exact load_step? _h

/-- Everything happens that can happen without time passing, until so many sends and closes have
ended. -/
def settleWithin (ends : Nat) (r : Relay μ) : Relay μ :=
  match ends with
  | 0 => r
  | n + 1 =>
    match _h : r.arrange? with
    | some s => settleWithin (n + 1) s
    | none =>
      match _h : r.conclude? with
      | some s => settleWithin n s
      | none => r
termination_by r.load
decreasing_by
  · exact load_arrange? _h
  · exact load_conclude? _h

/-! ## Commands -/

/-- What a relay can be told to do. -/
inductive Command (μ : Type) where
  /-- A listener subscribes to a competition, on behalf of a caller with a ticket. -/
  | register (ticket : Nat) (competition listener : String)
  /-- A listener leaves a competition. -/
  | unregister (ticket : Nat) (competition listener : String)
  /-- An event enters the queue. -/
  | publish (e : Event μ)
  /-- An event is delivered on behalf of a caller; one that cannot be written is refused. -/
  | dispatch (ticket : Nat) (e : Event μ)
  /-- A courier is hired, unless the one that is known is there. -/
  | start
  /-- The courier that is known is called off, on behalf of a caller who waits until it is gone. -/
  | stop (ticket : Nat)
  /-- A caller waits until all published events are done with. -/
  | join (ticket : Nat)
deriving DecidableEq, Repr

/-- A turn gets in line. -/
def request (r : Relay μ) (t : Turn μ) : Relay μ := { r with turns := r.turns ++ [t] }

/-- A courier is hired, unless the one that is known is there. -/
def start (r : Relay μ) : Relay μ :=
  if r.running then r
  else { r with
    couriers := r.couriers ++ [{ name := r.hired }], known := some r.hired, hired := r.hired + 1 }

/-- A courier is called off. -/
def call (r : Relay μ) (name : Nat) : Relay μ :=
  { r with couriers := r.couriers.map fun c => if c.name = name then ⟨name, true⟩ else c }

/-- The courier that is known is called off on behalf of a caller.  One that is gone is forgotten at
once. -/
def stop (r : Relay μ) (ticket : Nat) : Relay μ :=
  match r.known with
  | none => r
  | some name =>
    if name ∈ r.names then { r.call name with stops := r.stops ++ [⟨ticket, name⟩] }
    else { r with known := none }

/-- Whether a command is refused. -/
def Command.isRefused : Command μ → Bool
  | .dispatch _ e => e.message?.isNone
  | _ => false

/-- A command is given; what follows from it is left to the small steps. -/
def act (r : Relay μ) : Command μ → Relay μ
  | .register ticket competition listener => r.request (.enroll ticket competition listener)
  | .unregister ticket competition listener => r.request (.withdraw ticket competition listener)
  | .publish e => { r with queue := r.queue ++ [e] }
  | .dispatch ticket e =>
    match e.message? with
    | none => r
    | some m => r.request (.deliver (.caller ticket) m)
  | .start => r.start
  | .stop ticket => r.stop ticket
  | .join ticket => release { r with joiners := r.joiners ++ [ticket] }

/-- A command is given, and everything happens that follows from it without time passing. -/
def obey (r : Relay μ) (c : Command μ) : Relay μ := (r.act c).settle

/-! ## Time -/

/-- Time passes for the delivery under way. -/
def elapse (r : Relay μ) (nanos : Nat) : Relay μ :=
  { r with delivery := r.delivery.map fun d => { d with service := d.service.elapse nanos } }

/-- Time passes, in nanoseconds.  The relay settles in its way at each moment at which a send or a
close ends, and at the last. -/
def advance (settle : Relay μ → Relay μ) (r : Relay μ) (nanos : Nat) : Relay μ :=
  match r.wait? with
  | none => settle (r.elapse nanos)
  | some left =>
    if _h : 0 < left ∧ left ≤ nanos then advance settle (settle (r.elapse left)) (nanos - left)
    else settle (r.elapse nanos)
termination_by nanos
decreasing_by omega

/-! ## Listeners who come and go -/

/-- A new listener, who listens to no competition yet. -/
def introduce (r : Relay μ) (l : Listener μ) : Relay μ :=
  { r with audience.listeners := r.audience.listeners ++ [l] }

/-- A listener is forgotten. -/
def retire (r : Relay μ) (name : String) : Relay μ :=
  { r with audience.listeners := r.audience.listeners.filter fun l => l.name ≠ name }

/-- What each listener has received since the last time, by name. -/
def received (r : Relay μ) : List (String × List μ) :=
  r.audience.listeners.map fun l => (l.name, l.received.map (·.body))

/-- Start counting anew what the listeners receive. -/
def forgetReceived (r : Relay μ) : Relay μ :=
  { r with audience.listeners := r.audience.listeners.map fun l => { l with received := [] } }

end Relay

end PuzzleContest
