import PuzzleContest.Proofs.Occurrence

/-!
# A record of deliveries

Events of the broadcast hub are numbered in the order in which they were published.  A record is kept
of the two things that matter: which listeners an event has when its delivery takes the turn at the
roster, and at which listener its message arrives.  All other moves are quiet: they deliver nothing.

Main definitions:

- `Relay.Entry`, `Relay.record`, `Relay.log`: the record.
- `Relay.Service.awaited`: the listeners that may still receive the message under way.
- `Relay.Quiet`: a move by which nothing arrives and no delivery begins.

Main results:

- `Relay.quiet_act`, `Relay.quiet_heed?`, `Relay.quiet_pull?`, `Relay.quiet_proceed?`: orders are quiet,
  and so is what the couriers do between their deliveries.
- `Relay.Books.quiet_ends`: so is a send that fails, and the end of a close.
-/

namespace PuzzleContest.Relay

variable {μ : Type}

/-! ## The record -/

/-- What is written down about deliveries. -/
inductive Entry where
  /-- The delivery of an event takes the turn at the roster; these listen to its competition. -/
  | taken (number : Nat) (competition : String) (members : List String)
  /-- The message of an event arrives at a listener. -/
  | arrived (number : Nat) (listener : String)
deriving DecidableEq, Repr

/-- The number of an event whose delivery takes the turn. -/
def Entry.take? : Entry → Option Nat
  | .taken number _ _ => some number
  | .arrived _ _ => none

/-- The number of an event whose message arrives at a given listener. -/
def Entry.arrival? (name : String) : Entry → Option Nat
  | .taken _ _ _ => none
  | .arrived number listener => if listener = name then some number else none

/-- The numbers of the events whose messages arrived at a listener, in this order. -/
def arrivals (name : String) (log : List Entry) : List Nat := log.filterMap (Entry.arrival? name)

theorem arrivals_append_taken (name : String) (log : List Entry) (number : Nat) (competition : String)
    (members : List String) :
    arrivals name (log ++ [.taken number competition members]) = arrivals name log := by
  simp [arrivals, Entry.arrival?]

theorem arrivals_append_arrived (name : String) (log : List Entry) (number : Nat) :
    arrivals name (log ++ [.arrived number name]) = arrivals name log ++ [number] := by
  simp [arrivals, Entry.arrival?]

theorem arrivals_append_of_ne {name other : String} (log : List Entry) (number : Nat)
    (hne : name ≠ other) : arrivals other (log ++ [.arrived number name]) = arrivals other log := by
  simp [arrivals, Entry.arrival?, hne]

theorem takes_append_taken (log : List Entry) (number : Nat) (competition : String)
    (members : List String) :
    (log ++ [Entry.taken number competition members]).filterMap Entry.take? =
      log.filterMap Entry.take? ++ [number] := by
  simp [Entry.take?]

theorem takes_append_arrived (log : List Entry) (number : Nat) (name : String) :
    (log ++ [Entry.arrived number name]).filterMap Entry.take? = log.filterMap Entry.take? := by
  simp [Entry.take?]

/-- What is written down when a move is made. -/
def record (r : Relay μ) : Move μ → List Entry
  | .next =>
    match r.delivery, r.turns with
    | none, .deliver (.courier name number) m :: _ =>
      if r.isCalled name then []
      else [.taken number m.competition (r.audience.roster.members m.competition)]
    | _, _ => []
  | .ends .well =>
    match r.delivery with
    | some ⟨.courier _ number, ⟨_, _, some ⟨name, .sending _, _⟩⟩, _⟩ => [.arrived number name]
    | _ => []
  | _ => []

/-- What is written down while moves are made. -/
def log (r : Relay μ) : List (Move μ) → List Entry
  | [] => []
  | m :: moves => r.record m ++ (r.move m).log moves

/-! ## Those who are still to be served -/

/-- The listeners that may still receive the message of a service. -/
def Service.awaited (s : Service μ) : List String :=
  match s.errand with
  | some ⟨name, .sending _, _⟩ => name :: s.rest
  | _ => s.rest

/-- What a listener is known by, and what it has received. -/
def Listener.heard (l : Listener μ) : String × List (Message μ) := (l.name, l.received)

theorem Service.awaited_arrange? {patience : Option Nat} {a : Audience μ} {s : Service μ}
    {x : Audience μ × Service μ} (h : s.arrange? patience a = some x) :
    x.2.awaited.Sublist s.awaited := by
  unfold Service.arrange? at h
  split at h
  · simp at h
  · rename_i name rest herrand hrest
    obtain rfl := Option.some.inj h
    have hbefore : s.awaited = name :: rest := by rw [Service.awaited, herrand, hrest]
    rw [hbefore]
    cases hfind : a.find? name with
    | none => exact List.sublist_cons_self name rest
    | some l =>
      have hname : l.name = name := by simpa using List.find?_some hfind
      simp [Service.awaited, Errand.send, hname]
  · rename_i name left herrand
    obtain rfl := Option.some.inj h
    have hbefore : s.awaited = s.rest := by rw [Service.awaited, herrand]
    rw [hbefore]
    cases a.find? name with
    | none => exact List.Sublist.refl _
    | some l =>
      cases hfarewell : l.farewell <;> simp [Service.awaited, Errand.close?, hfarewell]
  · simp at h

theorem heard_update (a : Audience μ) (name : String) {f : Listener μ → Listener μ}
    (hf : ∀ l, (f l).heard = l.heard) :
    (a.update name f).listeners.map Listener.heard = a.listeners.map Listener.heard := by
  simp only [Audience.update, List.map_map]
  refine List.map_congr_left fun l _ => ?_
  by_cases hl : l.name = name <;> simp [hl, hf]

theorem heard_drop (a : Audience μ) (competition name : String) :
    (a.drop competition name).listeners.map Listener.heard = a.listeners.map Listener.heard := by
  refine heard_update { a with roster := a.roster.discard competition name } name fun l => ?_
  unfold Listener.dismiss
  split <;> rfl

theorem Service.heard_arrange? {patience : Option Nat} {a : Audience μ} {s : Service μ}
    {x : Audience μ × Service μ} (h : s.arrange? patience a = some x) :
    x.1.listeners.map Listener.heard = a.listeners.map Listener.heard := by
  unfold Service.arrange? at h
  split at h
  · simp at h
  · obtain rfl := Option.some.inj h
    rfl
  · obtain rfl := Option.some.inj h
    exact heard_drop a _ _
  · simp at h

/-! ## Quiet moves -/

/-- The numbers of the events whose deliveries wait for their turn. -/
def waiting (r : Relay μ) : List Nat := (r.turns.filterMap Turn.parcel?).filterMap (·.1.number?)

theorem numbers_eq_waiting {r : Relay μ} (hd : r.delivery = none) : r.numbers = r.waiting := by
  simp [numbers, parcels, waiting, hd]

/-- Nothing arrives, and no delivery begins. -/
structure Quiet (r s : Relay μ) : Prop where
  heard : s.audience.listeners.map Listener.heard = r.audience.listeners.map Listener.heard
  /-- What is still to come was still to come, or has just come up. -/
  ahead : ∀ k ∈ s.waiting ++ [s.pulled], ∃ j ∈ r.waiting ++ [r.pulled], j ≤ k
  under : ∀ d ∈ s.delivery, ∃ d' ∈ r.delivery, d.sender = d'.sender ∧
    d.service.message = d'.service.message ∧ d.service.awaited.Sublist d'.service.awaited

theorem ahead_of_sublist {r s : Relay μ} (hwaiting : s.waiting.Sublist r.waiting)
    (hpulled : s.pulled = r.pulled) :
    ∀ k ∈ s.waiting ++ [s.pulled], ∃ j ∈ r.waiting ++ [r.pulled], j ≤ k := by
  intro k hk
  rw [hpulled] at hk
  exact ⟨k, (hwaiting.append_right _).subset hk, Nat.le_refl _⟩

/-- A move that leaves the listeners, the delivery and what is to come as they are. -/
theorem Quiet.of_eq {r s : Relay μ} (hlisteners : s.audience.listeners = r.audience.listeners)
    (hwaiting : s.waiting = r.waiting) (hpulled : s.pulled = r.pulled)
    (hdelivery : s.delivery = r.delivery) : Quiet r s where
  heard := by rw [hlisteners]
  ahead := ahead_of_sublist (hwaiting ▸ .refl _) hpulled
  under d hd := ⟨d, hdelivery ▸ hd, rfl, rfl, List.Sublist.refl _⟩

theorem Quiet.refl (r : Relay μ) : Quiet r r := .of_eq rfl rfl rfl rfl

variable {r s : Relay μ} {published : List (Event μ)} {log : List Entry}

theorem waiting_request {t : Turn μ} (ht : t.parcel? = none) :
    (r.request t).waiting = r.waiting := by
  simp [request, waiting, ht]

theorem quiet_act (r : Relay μ) (order : Order μ) : Quiet r (r.act order.command) := by
  cases order with
  | register ticket competition listener => exact .of_eq rfl (waiting_request rfl) rfl rfl
  | unregister ticket competition listener => exact .of_eq rfl (waiting_request rfl) rfl rfl
  | publish e => exact .of_eq rfl rfl rfl rfl
  | start =>
    simp only [Order.command, Relay.act, Relay.start]
    split
    · exact .refl r
    · exact .of_eq rfl rfl rfl rfl
  | stop ticket =>
    simp only [Order.command, Relay.act, Relay.stop]
    split
    · exact .refl r
    · split <;> exact .of_eq rfl rfl rfl rfl
  | join ticket => exact .of_eq rfl rfl rfl rfl

theorem quiet_quit (r : Relay μ) (name : Nat) : Quiet r (r.quit name) where
  heard := rfl
  ahead := ahead_of_sublist ((List.filter_sublist.filterMap _).filterMap _) rfl
  under d hd := ⟨d, (Option.filter_eq_some_iff.1 hd).1, rfl, rfl, List.Sublist.refl _⟩

theorem quiet_heed? {name : Nat} (h : r.heed? name = some s) : Quiet r s := by
  unfold Relay.heed? at h
  split at h
  · split at h
    · obtain rfl := Option.some.inj h
      refine ⟨rfl, ahead_of_sublist (.refl _) rfl, fun d hd => ?_⟩
      obtain ⟨d', hd', rfl⟩ := Option.map_eq_some_iff.1 hd
      exact ⟨d', hd', rfl, rfl, List.Sublist.refl _⟩
    · obtain rfl := Option.some.inj h
      exact quiet_quit r name
  · simp at h

theorem quiet_resume? {stop : Stop} (h : r.resume? stop = some s) : Quiet r s := by
  unfold Relay.resume? at h
  split at h
  · obtain rfl := Option.some.inj h
    exact .of_eq rfl rfl rfl rfl
  · simp at h

theorem quiet_pull? {name : Nat} (h : r.pull? name = some s) : Quiet r s := by
  -- What comes up is the event that was the next to be taken.
  unfold Relay.pull? at h
  split at h
  · split at h
    · obtain rfl := Option.some.inj h
      refine ⟨rfl, fun k hk => ?_, fun d hd => ⟨d, hd, rfl, rfl, List.Sublist.refl _⟩⟩
      rcases List.mem_append.1 hk with hold | hnew
      · exact ⟨k, List.mem_append_left _ hold, Nat.le_refl _⟩
      · obtain rfl := List.mem_singleton.1 hnew
        exact ⟨r.pulled, by simp, Nat.le_succ _⟩
    · rename_i m _
      obtain rfl := Option.some.inj h
      refine ⟨rfl, fun k hk => ?_, fun d hd => ⟨d, hd, rfl, rfl, List.Sublist.refl _⟩⟩
      have hk' : k ∈ r.waiting ++ [r.pulled] ++ [r.pulled + 1] := by
        simpa [waiting, Turn.parcel?, Sender.number?] using hk
      rcases List.mem_append.1 hk' with hold | hnew
      · exact ⟨k, hold, Nat.le_refl _⟩
      · obtain rfl := List.mem_singleton.1 hnew
        exact ⟨r.pulled, by simp, Nat.le_succ _⟩
  · simp at h

theorem quiet_finish (r : Relay μ) (sender : Sender) : Quiet r (r.finish sender) := by
  cases sender <;>
    exact ⟨rfl, ahead_of_sublist (.refl _) rfl, fun d hd => absurd hd (by simp [finish, release])⟩

theorem quiet_proceed? (h : r.proceed? = some s) : Quiet r s := by
  unfold Relay.proceed? at h
  split at h
  · simp at h
  · rename_i d hd
    split at h
    · simp at h
    split at h
    · obtain rfl := Option.some.inj h
      exact quiet_finish r d.sender
    · obtain ⟨x, hx, rfl⟩ := Option.map_eq_some_iff.1 h
      refine ⟨Service.heard_arrange? hx, ahead_of_sublist (.refl _) rfl, fun d' hd' => ?_⟩
      obtain rfl := Option.some.inj hd'
      exact ⟨d, hd, rfl, Service.message_arrange? hx, Service.awaited_arrange? hx⟩

theorem quiet_elapse (r : Relay μ) (nanos : Nat) : Quiet r (r.elapse nanos) where
  heard := rfl
  ahead := ahead_of_sublist (.refl _) rfl
  under d hd := by
    obtain ⟨d', hd', rfl⟩ := Option.map_eq_some_iff.1 hd
    refine ⟨d', hd', rfl, rfl, ?_⟩
    rcases herrand : d'.service.errand with _ | ⟨name, _ | _ | _, left⟩
    all_goals simp [Service.awaited, Service.elapse, herrand]

/-- A turn at the roster that is no delivery. -/
theorem quiet_take {t : Turn μ} {turns : List (Turn μ)} (hturns : r.turns = t :: turns)
    (ht : t.parcel? = none) : Quiet r (Relay.take { r with turns } t) := by
  have hwaiting : (turns.filterMap Turn.parcel?).filterMap (·.1.number?) = r.waiting := by
    rw [waiting, hturns, List.filterMap_cons, ht]
  cases t with
  | enroll ticket competition listener => exact .of_eq rfl hwaiting rfl rfl
  | withdraw ticket competition listener => exact .of_eq rfl hwaiting rfl rfl
  | deliver sender m => simp [Turn.parcel?] at ht

/-- A send that fails, and the end of a close. -/
theorem quiet_ends {ending : Ending} {d : Delivery μ} (hd : r.delivery = some d)
    (hsame : (d.service.ends r.audience ending.success).1.listeners.map Listener.heard =
        r.audience.listeners.map Listener.heard)
    (hawaited : (d.service.ends r.audience ending.success).2.awaited.Sublist d.service.awaited) :
    Quiet r (r.ends ending) := by
  rw [ends_of_some hd]
  refine ⟨hsame, ahead_of_sublist (.refl _) rfl, fun d' hd' => ?_⟩
  obtain rfl := Option.some.inj hd'
  exact ⟨d, hd, rfl, Service.message_ends _ _ _, hawaited⟩

/-- A listener does not receive a message, by what is written down when a send or a close ends. -/
theorem Books.quiet_ends (hb : r.Books published) {ending : Ending}
    (hrecord : r.record (.ends ending) = []) : Quiet r (r.ends ending) := by
  cases hd : r.delivery with
  | none =>
    rw [ends_of_none hd]
    exact .refl r
  | some d =>
    obtain ⟨name, number, e, hsender, -⟩ := hb.delivery hd
    obtain ⟨sender, ⟨message, rest, errand⟩, answered⟩ := d
    obtain rfl : sender = _ := hsender
    rcases errand with _ | ⟨listener, _ | _ | _, left⟩
    · exact Relay.quiet_ends hd rfl (List.Sublist.refl _)
    · cases ending with
      | well => simp [record, hd] at hrecord
      | badly | late => exact Relay.quiet_ends hd rfl (List.sublist_cons_self _ _)
    · exact Relay.quiet_ends hd rfl (List.Sublist.refl _)
    · exact Relay.quiet_ends hd rfl (List.Sublist.refl _)

end PuzzleContest.Relay
