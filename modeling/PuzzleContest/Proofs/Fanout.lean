import PuzzleContest.Proofs.Serving
import PuzzleContest.Proofs.Toil

/-!
# One event to all listeners

When the broadcast hub delivers an event and nothing else happens, the delivery ends, and comes to what
its service comes to from the start.  So the listeners who do not take the message are dropped and told
to close, the others have it, and neither the order in which they are visited nor what the dropped ones
do when they close makes a difference.

Main definitions:

- `Relay.Nears`: a relay that does nothing but end a delivery.
- `Relay.broadcast`: a message is delivered to listeners in some order.
- `Relay.Fanned`: what has become of everybody when a message has been delivered.

Main results:

- `Relay.Nears.advance`, `Relay.Nears.ended`: the delivery ends in time.
- `Relay.fanned_dispatch`: an event that is dispatched reaches who takes it, and hurts nobody else.
-/

namespace PuzzleContest.Relay

variable {μ : Type} {patience : Option Nat} {a : Audience μ} {sv : Service μ} {r s : Relay μ}
variable {time limit : Nat} {m : Message μ}

/-! ## A relay that does nothing but end a delivery -/

theorem Service.toil_conclude? {x : Audience μ × Service μ} (h : sv.conclude? a = some x) :
    x.2.toil limit ≤ sv.toil limit := by
  obtain ⟨hends, -⟩ := Service.ends_ending none h
  exact hends ▸ Service.toil_ends limit a sv _

/-- What the delivery under way comes to, or has come to. -/
def outcome (r : Relay μ) : Audience μ :=
  match r.delivery with
  | none => r.audience
  | some d => d.service.outcome r.patience r.audience

/-- A relay does nothing but end a delivery, if it has not ended, which comes to an audience within a
time. -/
structure Nears (patience : Option Nat) (a : Audience μ) (time : Nat) (r : Relay μ) : Prop where
  patience_eq : r.patience = patience
  turns_eq : r.turns = []
  /-- The couriers have nothing to take. -/
  idle : r.couriers ≠ [] → r.queue = []
  uncalled : r.Uncalled
  outcome_eq : r.outcome = a
  toil_le : ∀ d ∈ r.delivery, d.service.toil (patience.getD 0) ≤ time

theorem Nears.mono (hr : Nears patience a time r) {time' : Nat} (hle : time ≤ time') :
    Nears patience a time' r :=
  { hr with toil_le := fun d hd => Nat.le_trans (hr.toil_le d hd) hle }

theorem outcome_of_some {d : Delivery μ} (hd : r.delivery = some d) :
    r.outcome = d.service.outcome r.patience r.audience := by
  rw [outcome, hd]

theorem outcome_of_none (hd : r.delivery = none) : r.outcome = r.audience := by
  rw [outcome, hd]

/-- The service goes on. -/
theorem Nears.serve (hr : Nears patience a time r) {d : Delivery μ} (hd : r.delivery = some d)
    {x : Audience μ × Service μ}
    (houtcome : x.2.outcome patience x.1 = d.service.outcome patience r.audience)
    (htoil : x.2.toil (patience.getD 0) ≤ d.service.toil (patience.getD 0)) (answered : Bool) :
    Nears patience a time
      { r with audience := x.1, delivery := some { d with service := x.2, answered } } where
  patience_eq := hr.patience_eq
  turns_eq := hr.turns_eq
  idle := hr.idle
  uncalled := hr.uncalled
  outcome_eq := by
    have hbefore := hr.outcome_eq
    rw [outcome_of_some hd, hr.patience_eq] at hbefore
    rw [outcome_of_some rfl, hr.patience_eq, houtcome, hbefore]
  toil_le := by
    intro d' hd'
    obtain rfl := Option.some.inj hd'
    exact Nat.le_trans htoil (hr.toil_le d hd)

theorem Nears.finish (hr : Nears patience a time r) {d : Delivery μ} (hd : r.delivery = some d)
    (hover : d.service.isOver = true) : Nears patience a time (r.finish d.sender) := by
  have houtcome := hr.outcome_eq
  rw [outcome_of_some hd, Service.outcome_of_isOver hover] at houtcome
  cases d.sender <;>
    exact ⟨hr.patience_eq, hr.turns_eq, hr.idle, hr.uncalled, houtcome,
      fun _ hd' => absurd hd' (by simp [Relay.finish, release])⟩

/-- Every small step that such a relay does is one of its delivery, or lets one go on who has stopped a
courier. -/
theorem Nears.step (hr : Nears patience a time r) (h : r.step? = some s) :
    Nears patience a time s := by
  simp only [step?, arrange?, Option.or_eq_some_iff] at h
  rcases h with
    ((((hheed | ⟨-, hresume⟩) | ⟨-, hpull⟩) | ⟨-, hproceed⟩) | ⟨-, hnext⟩) | ⟨-, hconclude⟩
  · -- Nobody has been called off.
    obtain ⟨name, -, hheed⟩ := List.exists_of_findSome?_eq_some hheed
    simp [heed?, hr.uncalled.isCalled_eq] at hheed
  · obtain ⟨stop, -, hresume⟩ := List.exists_of_findSome?_eq_some hresume
    unfold resume? at hresume
    split at hresume
    · obtain rfl := Option.some.inj hresume
      exact ⟨hr.patience_eq, hr.turns_eq, hr.idle, hr.uncalled, hr.outcome_eq, hr.toil_le⟩
    · simp at hresume
  · -- The couriers have nothing to take.
    obtain ⟨name, -, hpull⟩ := List.exists_of_findSome?_eq_some hpull
    unfold pull? at hpull
    split at hpull
    · rename_i e queue hidle hqueue
      have hmem := (of_decide_eq_true hidle).1
      have hnone := hr.idle (List.ne_nil_of_mem hmem)
      simp [hqueue] at hnone
    · simp at hpull
  · unfold proceed? at hproceed
    split at hproceed
    · simp at hproceed
    · rename_i d hd
      split at hproceed
      · simp at hproceed
      split at hproceed
      · rename_i hover
        obtain rfl := Option.some.inj hproceed
        exact hr.finish hd hover
      · obtain ⟨x, hx, rfl⟩ := Option.map_eq_some_iff.1 hproceed
        rw [hr.patience_eq] at hx
        exact hr.serve hd (Service.outcome_arrange? hx) (Service.toil_arrange? hx) false
  · -- Nobody waits for a turn.
    unfold nextTurn? at hnext
    split at hnext
    · rename_i t turns hd hturns
      simp [hr.turns_eq] at hturns
    · simp at hnext
  · unfold conclude? at hconclude
    split at hconclude
    · simp at hconclude
    · rename_i d hd
      obtain ⟨x, hx, rfl⟩ := Option.map_eq_some_iff.1 hconclude
      exact hr.serve hd (Service.outcome_conclude? hx) (Service.toil_conclude? hx) _

theorem Nears.settle (hr : Nears patience a time r) : Nears patience a time r.settle :=
  settle_keeps (fun _ _ => Nears.step) hr

/-- The time that passes while a listener is waited for counts. -/
theorem Nears.elapse {nanos : Nat} (hr : Nears patience a (time + nanos) r) (hrest : r.Resting)
    (hwait : ∀ left, r.wait? = some left → nanos ≤ left) :
    Nears patience a time (r.elapse nanos) := by
  cases hd : r.delivery with
  | none =>
    have hsame : r.elapse nanos = r := by
      unfold Relay.elapse
      rw [hd, Option.map_none, ← hd]
    rw [hsame]
    exact ⟨hr.patience_eq, hr.turns_eq, hr.idle, hr.uncalled, hr.outcome_eq,
      fun d hd' => absurd hd' (by simp [hd])⟩
  | some d =>
    obtain ⟨e, herrand, hstage, -⟩ := hrest.held d hd
    have hleft : nanos ≤ e.left := hwait e.left (by simp [wait?, hd, herrand])
    have hafter : (r.elapse nanos).delivery =
        some { d with service := d.service.elapse nanos } := by simp [Relay.elapse, hd]
    have houtcome := hr.outcome_eq
    rw [outcome_of_some hd] at houtcome
    refine ⟨hr.patience_eq, hr.turns_eq, hr.idle, hr.uncalled, ?_, ?_⟩
    · rw [outcome_of_some hafter]
      exact (Service.outcome_elapse _ _ _ nanos).trans houtcome
    · intro d' hd'
      obtain rfl := Option.some.inj (hafter.symm.trans hd')
      have hless := d.service.toil_elapse (patience.getD 0) herrand hstage hleft
      have hbefore := hr.toil_le d hd
      change (d.service.elapse nanos).toil (patience.getD 0) ≤ time
      omega

theorem Nears.advance {nanos : Nat} (hr : Nears patience a (time + nanos) r) (hrest : r.Resting) :
    Nears patience a time (Relay.advance Relay.settle r nanos) :=
  advance_spends (P := fun time r => Nears patience a time r) (fun _ _ hr => hr.settle)
    (fun _ _ _ hrest hwait hr => hr.elapse hrest hwait) hrest hr

/-- When there is no time left, the delivery has ended. -/
theorem Nears.ended (hr : Nears patience a 0 r) (hrest : r.Resting) :
    r.delivery = none ∧ r.audience = a := by
  cases hd : r.delivery with
  | none => exact ⟨rfl, (outcome_of_none hd).symm.trans hr.outcome_eq⟩
  | some d =>
    -- Otherwise it would wait for a listener, for which there is no time.
    obtain ⟨e, herrand, hstage, hleft⟩ := hrest.held d hd
    have hless := d.service.toil_elapse (patience.getD 0) herrand hstage (Nat.le_refl _)
    have hnone := hr.toil_le d hd
    omega

/-! ## A message is delivered -/

/-- A message has set out to listeners, who are visited in the order given. -/
def visiting (r : Relay μ) (sender : Sender) (m : Message μ) (order : List String) : Relay μ :=
  { r with
    pulled := if sender.isCourier then r.pulled + 1 else r.pulled
    delivery := some { sender, service := { message := m, rest := order } } }

/-- A message is delivered to listeners in the order given, and time passes. -/
def broadcast (r : Relay μ) (sender : Sender) (m : Message μ) (order : List String)
    (nanos : Nat) : Relay μ :=
  advance settle (r.visiting sender m order).settle nanos

/-- Where nobody has been called off and nobody is waited for in vain, nothing comes before the taking of
events. -/
theorem arrange?_eq (huncalled : r.Uncalled) (hstopping : ∀ stop ∈ r.stops, stop.courier ∈ r.names) :
    r.arrange? = ((r.names.findSome? r.pull?).or r.proceed?).or r.nextTurn? := by
  have hheed : r.names.findSome? r.heed? = none :=
    List.findSome?_eq_none_iff.2 fun name _ => by simp [heed?, huncalled.isCalled_eq]
  have hresume : r.stops.findSome? r.resume? = none :=
    List.findSome?_eq_none_iff.2 fun stop hstop => by simp [resume?, hstopping stop hstop]
  rw [arrange?, hheed, hresume]
  rfl

/-- Where the couriers have nothing to take, a turn is taken if nobody has it. -/
theorem settle_of_nextTurn? (huncalled : r.Uncalled)
    (hstopping : ∀ stop ∈ r.stops, stop.courier ∈ r.names)
    (hpull : ∀ name, r.pull? name = none) (hfree : r.delivery = none) (h : r.nextTurn? = some s) :
    r.settle = s.settle := by
  have hproceed : r.proceed? = none := by simp [proceed?, hfree]
  have hnone : r.names.findSome? r.pull? = none :=
    List.findSome?_eq_none_iff.2 fun name _ => hpull name
  apply settle_eq_of_step?
  rw [step?, arrange?_eq huncalled hstopping, hnone, hproceed, h]
  rfl

/-- A courier at rest has nothing to take, if nobody has the turn. -/
theorem Resting.queue_eq (hrest : r.Resting) (hfree : r.delivery = none) (hne : r.couriers ≠ []) :
    r.queue = [] := by
  have hparcels : r.parcels = [] := by simp [parcels, hfree, hrest.free hfree]
  obtain ⟨name, hidle⟩ := OnDuty.exists_isIdle ⟨hne, hrest.uncalled⟩ hparcels
  exact hrest.idle name hidle

/-- Without events in the queue, or without couriers, none is taken. -/
theorem pull?_eq_none (hqueue : r.couriers ≠ [] → r.queue = []) (name : Nat) :
    r.pull? name = none := by
  unfold pull?
  split
  · rename_i e queue hidle hcons
    have hnone := hqueue (List.ne_nil_of_mem (of_decide_eq_true hidle).1)
    simp [hcons] at hnone
  · rfl

/-- An event that is dispatched while nobody has the turn at the roster sets out at once, to the
listeners of its competition as they are. -/
theorem obey_dispatch (hrest : r.Resting) (hfree : r.delivery = none) (ticket : Nat)
    (competition : String) (body : μ) :
    r.obey (.dispatch ticket ⟨competition, some body⟩) =
      (r.visiting (.caller ticket) ⟨competition, body⟩ (r.audience.present competition)).settle := by
  have hturns := hrest.free hfree
  refine settle_of_nextTurn? (r := r.act _) hrest.uncalled hrest.stopping ?_ ?_ ?_
  · exact pull?_eq_none (r := r.request (.deliver (.caller ticket) ⟨competition, body⟩))
      (hrest.queue_eq hfree)
  · exact hfree
  · simp [act, Event.message?, request, nextTurn?, hfree, hturns, take, Service.start, visiting,
      Turn.parcel?, isHalted, Sender.isCourier]

/-- The first courier of a list that has an idle one finds an event in the queue, and takes it. -/
theorem exists_findSome?_pull? {e : Event μ} {queue : List (Event μ)} {m : Message μ}
    (hqueue : r.queue = e :: queue) (hmessage : e.message? = some m) {names : List Nat} {name : Nat}
    (hname : name ∈ names) (hidle : r.isIdle name = true) :
    ∃ first, names.findSome? r.pull? = some { r with
      queue, pulled := r.pulled + 1, turns := r.turns ++ [.deliver (.courier first r.pulled) m] } := by
  have hsome : (names.findSome? r.pull?).isSome := by
    rw [List.findSome?_isSome_iff]
    exact ⟨name, hname, by simp [pull?, hidle, hqueue, hmessage]⟩
  obtain ⟨s, hs⟩ := Option.isSome_iff_exists.1 hsome
  obtain ⟨first, -, hfirst⟩ := List.exists_of_findSome?_eq_some hs
  refine ⟨first, hs.trans ?_⟩
  unfold pull? at hfirst
  split at hfirst
  · rename_i e' queue' _ hcons
    obtain ⟨rfl, rfl⟩ : e = e' ∧ queue = queue' := by simpa [hqueue] using hcons
    simp only [hmessage] at hfirst
    exact hfirst.symm
  · simp at hfirst

/-- So does an event that is published while a courier is idle. -/
theorem obey_publish (hrest : r.Resting) (hfree : r.delivery = none)
    (hidle : ∃ name, r.isIdle name = true) (competition : String) (body : μ) :
    ∃ name, r.obey (.publish ⟨competition, some body⟩) =
      (r.visiting (.courier name r.pulled) ⟨competition, body⟩
        (r.audience.present competition)).settle := by
  obtain ⟨name, hidle⟩ := hidle
  have hturns := hrest.free hfree
  have hqueue := hrest.idle name hidle
  obtain ⟨first, hfirst⟩ := exists_findSome?_pull? (r := r.act (.publish ⟨competition, some body⟩))
    (e := ⟨competition, some body⟩) (congrArg (· ++ [_]) hqueue) rfl (mem_names_of_isIdle hidle) hidle
  refine ⟨first, ?_⟩
  have hstep : (r.act (.publish ⟨competition, some body⟩)).step? = some { r with
      pulled := r.pulled + 1
      turns := [.deliver (.courier first r.pulled) ⟨competition, body⟩] } := by
    rw [step?, arrange?_eq (r := r.act (.publish ⟨competition, some body⟩)) hrest.uncalled
      hrest.stopping]
    change (((r.names.findSome? _).or _).or _).or _ = _
    rw [hfirst]
    simp [act, hqueue, hturns]
  refine (settle_eq_of_step? hstep).trans ?_
  refine settle_of_nextTurn? hrest.uncalled hrest.stopping ?_ ?_ ?_
  · exact pull?_eq_none (r := { r with
      pulled := r.pulled + 1
      turns := [.deliver (.courier first r.pulled) ⟨competition, body⟩] }) fun _ => hqueue
  · exact hfree
  · have hcalled : r.isCalled first = false := Uncalled.isCalled_eq hrest.uncalled first
    simp [nextTurn?, hfree, take, Service.start, visiting, hturns, Turn.parcel?, isHalted,
      Sender.isCourier]
    exact hcalled

/-- A relay in which a message sets out while nobody waits does nothing but deliver it. -/
theorem nears_visiting (hrest : r.Resting) (hfree : r.delivery = none) (sender : Sender)
    (m : Message μ) (order : List String) :
    Nears r.patience (r.audience.serveAll r.patience m order)
      (order.length * (r.patience.getD 0 + closePatience)) (r.visiting sender m order) where
  patience_eq := rfl
  turns_eq := hrest.free hfree
  idle := hrest.queue_eq hfree
  uncalled := hrest.uncalled
  outcome_eq := Service.outcome_of_none rfl
  toil_le := by
    intro d hd
    obtain rfl := Option.some.inj hd
    simp [Service.toil]

/-- A message that sets out while nobody waits has been delivered, and has come to what it comes to,
when there has been time for everybody. -/
theorem broadcast_ended (hrest : r.Resting) (hfree : r.delivery = none) (sender : Sender)
    (m : Message μ) {order : List String} {nanos : Nat}
    (htime : order.length * (r.patience.getD 0 + closePatience) ≤ nanos) :
    (r.broadcast sender m order nanos).delivery = none ∧
      (r.broadcast sender m order nanos).audience = r.audience.serveAll r.patience m order := by
  have henough : Nears r.patience (r.audience.serveAll r.patience m order) (0 + nanos)
      (r.visiting sender m order).settle :=
    (nears_visiting hrest hfree sender m order).settle.mono (by omega)
  have hafter := henough.advance (resting_of_step? (step?_settle _))
  exact hafter.ended (resting_of_step? (step?_advance _ nanos))

/-! ## What has become of everybody -/

/-- What has become of everybody when a message has been delivered to those who had so much time for
it. -/
structure Fanned (limit : Nat) (m : Message μ) (r s : Relay μ) : Prop where
  ended : s.delivery = none
  /-- Of the listeners of the competition, each that takes the message has it, once, and each other one
  has been told to close, once, if it can be; nothing has become of anybody else. -/
  listeners_eq : s.audience.listeners = r.audience.listeners.map fun l =>
    if l.name ∈ r.audience.roster.members m.competition then
      if l.Takes limit then { l with received := l.received ++ [m] }
      else if l.farewell = .absent then l else { l with dismissals := l.dismissals + 1 }
    else l
  /-- Those who took it are the listeners of the competition from now on. -/
  members_eq : s.audience.roster.members m.competition =
    (r.audience.roster.members m.competition).filter fun name =>
      ∃ l ∈ r.audience.listeners, l.name = name ∧ l.Takes limit
  /-- The competition has an entry only if there are any. -/
  entry_iff : m.competition ∈ s.audience.roster.competitions ↔
    ∃ l ∈ r.audience.listeners, l.name ∈ r.audience.roster.members m.competition ∧ l.Takes limit
  /-- The other competitions have the listeners they had, whoever has been dropped. -/
  others_eq : s.audience.roster.entries.filter (·.1 ≠ m.competition) =
    r.audience.roster.entries.filter (·.1 ≠ m.competition)

theorem Listener.served_eq (limit : Nat) (m : Message μ) (l : Listener μ) : l.served limit m =
    if l.Takes limit then { l with received := l.received ++ [m] }
    else if l.farewell = .absent then l else { l with dismissals := l.dismissals + 1 } := by
  unfold served dismiss receive
  cases l.farewell <;> rfl

theorem fanned_of_audience (ha : r.audience.Proper) (hended : s.delivery = none)
    (hs : s.audience = r.audience.fanned limit m) : Fanned limit m r s where
  ended := hended
  listeners_eq := by simp only [hs, Audience.fanned, Listener.served_eq]
  members_eq := by
    rw [hs]
    exact Roster.members_keep ha.competitions_nodup m.competition _
  entry_iff := by
    have hproper : (r.audience.fanned limit m).Proper := ha.fanned limit m
    rw [hs, hproper.filled.mem_competitions_iff hproper.competitions_nodup]
    have hmembers : (r.audience.fanned limit m).roster.members m.competition = _ :=
      Roster.members_keep ha.competitions_nodup m.competition _
    rw [hmembers, Ne, List.filter_eq_nil_iff]
    constructor
    · intro hsome
      by_contra hnone
      refine hsome fun name hname htakes => hnone ?_
      obtain ⟨l, hl, rfl, hl'⟩ := of_decide_eq_true htakes
      exact ⟨l, hl, hname, hl'⟩
    · rintro ⟨l, hl, hmem, htakes⟩ hnone
      exact hnone l.name hmem (decide_eq_true ⟨l, hl, rfl, htakes⟩)
  others_eq := by
    rw [hs]
    exact Roster.filter_keep r.audience.roster m.competition _

/-- Listeners who close otherwise than they do. -/
def Audience.recast (farewells : String → Farewell) (a : Audience μ) : Audience μ :=
  { a with listeners := a.listeners.map fun l => { l with farewell := farewells l.name } }

/-- Everything is as it is but what listeners do when they close. -/
def recast (farewells : String → Farewell) (r : Relay μ) : Relay μ :=
  { r with audience := r.audience.recast farewells }

theorem Audience.names_recast (farewells : String → Farewell) (a : Audience μ) :
    (a.recast farewells).names = a.names := by
  simp [names, Audience.recast, Function.comp_def]

theorem Audience.Proper.recast (ha : a.Proper) (farewells : String → Farewell) :
    (a.recast farewells).Proper := ha.congr (names_recast farewells a) rfl

theorem Audience.present_recast (farewells : String → Farewell) (a : Audience μ)
    (competition : String) : (a.recast farewells).present competition = a.present competition := by
  change (a.recast farewells).names.filter _ = _
  rw [names_recast]
  rfl

theorem Audience.takes_recast_iff (farewells : String → Farewell) (a : Audience μ) (limit : Nat)
    (name : String) : (a.recast farewells).Takes limit name ↔ a.Takes limit name := by
  constructor
  · rintro ⟨l', hl', hname, htakes⟩
    obtain ⟨l, hl, rfl⟩ := List.mem_map.1 hl'
    exact ⟨l, hl, hname, htakes⟩
  · rintro ⟨l, hl, hname, htakes⟩
    exact ⟨_, List.mem_map_of_mem hl, hname, htakes⟩

/-- What listeners do when they close makes no difference to the roster. -/
theorem Audience.roster_fanned_recast (farewells : String → Farewell) (a : Audience μ)
    (limit : Nat) (m : Message μ) :
    ((a.recast farewells).fanned limit m).roster = (a.fanned limit m).roster := by
  refine Roster.keep_congr fun e _ _ name _ => ?_
  rw [decide_eq_decide]
  exact takes_recast_iff farewells a limit name

theorem Listener.received_served (limit : Nat) (m : Message μ) (l : Listener μ) :
    (l.served limit m).received = if l.Takes limit then l.received ++ [m] else l.received := by
  rw [served_eq]
  split
  · rfl
  · split <;> rfl

/-- What each listener has received, by name. -/
def Audience.heard (a : Audience μ) : List (String × List (Message μ)) :=
  a.listeners.map fun l => (l.name, l.received)

/-- Each listener of the competition that takes the message receives it, and nobody else does. -/
theorem Audience.heard_fanned (limit : Nat) (m : Message μ) (a : Audience μ) :
    (a.fanned limit m).heard = a.listeners.map fun l =>
      (l.name, if l.name ∈ a.roster.members m.competition ∧ l.Takes limit then l.received ++ [m]
        else l.received) := by
  simp only [heard, fanned, List.map_map]
  apply List.map_congr_left
  intro l _
  by_cases hmem : l.name ∈ a.roster.members m.competition
  · simp [hmem, Listener.name_served, Listener.received_served]
  · simp [hmem]

/-- Nor does it make a difference to what anybody receives. -/
theorem Audience.heard_fanned_recast (farewells : String → Farewell) (a : Audience μ)
    (limit : Nat) (m : Message μ) :
    ((a.recast farewells).fanned limit m).heard = (a.fanned limit m).heard := by
  rw [heard_fanned, heard_fanned, Audience.recast, List.map_map]
  rfl

/-! ## The whole -/

/-- A message that sets out in a proper audience, while nobody has the turn at the roster, is delivered
in time, and has come to what can be said without any order. -/
theorem broadcast_fanned (hpatience : r.patience = some limit) (ha : r.audience.Proper)
    (hrest : r.Resting) (hfree : r.delivery = none) (sender : Sender) {order : List String}
    (horder : order.Perm (r.audience.present m.competition)) {nanos : Nat}
    (htime : order.length * (limit + closePatience) ≤ nanos) :
    (r.broadcast sender m order nanos).delivery = none ∧
      (r.broadcast sender m order nanos).audience = r.audience.fanned limit m := by
  have hlong : order.length * (r.patience.getD 0 + closePatience) ≤ nanos := by
    rw [hpatience]
    exact htime
  obtain ⟨hended, haudience⟩ := broadcast_ended hrest hfree sender m hlong
  refine ⟨hended, ?_⟩
  rw [haudience, hpatience]
  exact ha.serveAll_eq_fanned horder

/-- What has become of everybody, and that it makes no difference in which order the listeners were
visited and what the dropped ones did when they closed. -/
theorem broadcast_alike (hpatience : r.patience = some limit) (ha : r.audience.Proper)
    (hrest : r.Resting) (hfree : r.delivery = none) (sender : Sender) {order order' : List String}
    (horder : order.Perm (r.audience.present m.competition))
    (horder' : order'.Perm (r.audience.present m.competition)) {nanos nanos' : Nat}
    (htime : order.length * (limit + closePatience) ≤ nanos)
    (htime' : order'.length * (limit + closePatience) ≤ nanos') (farewells : String → Farewell) :
    ((r.recast farewells).broadcast sender m order' nanos').audience.roster =
        (r.broadcast sender m order nanos).audience.roster ∧
      ((r.recast farewells).broadcast sender m order' nanos').audience.heard =
        (r.broadcast sender m order nanos).audience.heard := by
  have hrecast : (r.recast farewells).Resting :=
    ⟨hrest.held, hrest.free, hrest.idle, hrest.uncalled, hrest.stopping⟩
  have hpresent : order'.Perm ((r.recast farewells).audience.present m.competition) := by
    rw [recast, Audience.present_recast]
    exact horder'
  obtain ⟨-, haudience⟩ := broadcast_fanned hpatience ha hrest hfree sender horder htime
  obtain ⟨-, haudience'⟩ := broadcast_fanned (r := r.recast farewells) hpatience
    (ha.recast farewells) hrecast hfree sender hpresent htime'
  rw [haudience, haudience']
  exact ⟨Audience.roster_fanned_recast farewells _ limit _,
    Audience.heard_fanned_recast farewells _ limit _⟩

/-- An event that is dispatched by a caller, or by an idle courier, while nobody has the turn at the
roster is delivered to the listeners of its competition.  The delivery ends, at the latest after the
time for so many listeners.  Each of them that takes the message in time has it, and the others are
dropped and told to close.  Neither the order in which they are visited nor what the dropped ones do
when they close makes a difference to what anybody has received and to the roster. -/
theorem fanned_dispatch (hpatience : r.patience = some limit) (ha : r.audience.Proper)
    (hrest : r.Resting) (hfree : r.delivery = none) (m : Message μ) :
    (∀ ticket, r.obey (.dispatch ticket ⟨m.competition, some m.body⟩) =
      (r.visiting (.caller ticket) m (r.audience.present m.competition)).settle) ∧
    ((∃ name, r.isIdle name = true) → ∃ name, r.obey (.publish ⟨m.competition, some m.body⟩) =
      (r.visiting (.courier name r.pulled) m (r.audience.present m.competition)).settle) ∧
    ∀ (sender : Sender),
      ∀ order, order.Perm (r.audience.present m.competition) →
        ∀ nanos, order.length * (limit + closePatience) ≤ nanos →
          Fanned limit m r (r.broadcast sender m order nanos) ∧
          ∀ order', order'.Perm (r.audience.present m.competition) →
            ∀ nanos', order'.length * (limit + closePatience) ≤ nanos' → ∀ farewells,
              ((r.recast farewells).broadcast sender m order' nanos').audience.roster =
                  (r.broadcast sender m order nanos).audience.roster ∧
                ((r.recast farewells).broadcast sender m order' nanos').audience.heard =
                  (r.broadcast sender m order nanos).audience.heard := by
  refine ⟨fun ticket => obey_dispatch hrest hfree ticket m.competition m.body,
    fun hidle => obey_publish hrest hfree hidle m.competition m.body, ?_⟩
  intro sender order horder nanos htime
  obtain ⟨hended, haudience⟩ := broadcast_fanned hpatience ha hrest hfree sender horder htime
  refine ⟨fanned_of_audience ha hended haudience, fun order' horder' nanos' htime' farewells => ?_⟩
  exact broadcast_alike hpatience ha hrest hfree sender horder horder' htime htime' farewells

/-- Three listeners of one competition, of which one listens to another one, too. -/
def trio : Relay String where
  patience := some 2000000000
  audience :=
    { listeners := [{ name := "late", manner := .slow 3000000000, farewell := .stuck },
        { name := "quick" }, { name := "broken", manner := .failing, farewell := .absent }]
      roster := ⟨[("c-1", ["quick", "late", "broken"]), ("c-2", ["late"])]⟩ }

theorem fanned_dispatch_trio : trio.patience = some 2000000000 ∧ trio.audience.Proper ∧
    trio.Resting ∧ trio.delivery = none ∧
    Fanned 2000000000 ⟨"c-1", "solved"⟩ trio
      (trio.broadcast (.caller 0) ⟨"c-1", "solved"⟩ ["late", "quick", "broken"] 9000000000) := by
  have hproper : trio.audience.Proper := ⟨by decide, by decide, by unfold Roster.Filled; decide, by decide⟩
  have hrest : trio.Resting :=
    ⟨fun _ hd => absurd hd (by simp [trio]), fun _ => rfl, fun _ _ => rfl,
      fun _ hc => absurd hc List.not_mem_nil, fun _ hs => absurd hs List.not_mem_nil⟩
  refine ⟨rfl, hproper, hrest, rfl, ?_⟩
  exact ((fanned_dispatch rfl hproper hrest rfl ⟨"c-1", "solved"⟩).2.2 (.caller 0)
    ["late", "quick", "broken"] (by decide) 9000000000 (by decide)).1

end PuzzleContest.Relay
