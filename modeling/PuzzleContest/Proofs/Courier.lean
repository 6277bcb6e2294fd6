import Mathlib.Data.List.Nodup
import PuzzleContest.Relay

/-!
# What the couriers of the broadcast hub have in their hands

Users register, publish, start and stop; time passes; and each listener takes a message, refuses it or
lets its time run out whenever it likes.  Between two of these a relay does small steps, in an order
that it chooses: a courier takes an event, or comes to it that it was called off, and one who stops the
relay goes on when the courier is gone.  Whatever happens, events are taken from the queue in the order
in which they were published, each by one courier, and those that are done with, those in the couriers'
hands and those in the queue are together the events that were published.

Main definitions:

- `Relay.Order`, `Relay.Move`, `Relay.run`: what can happen, one small step after another.
- `Relay.numbers`, `Relay.holders`: the events under way, and the couriers that have them.
- `Relay.Books`: the accounts of a relay.

Main results:

- `Relay.Books.move`, `Relay.Books.run`: every move keeps the accounts.
-/

namespace PuzzleContest.Relay

variable {μ : Type}

/-! ## Moves -/

/-- What its users tell a relay. -/
inductive Order (μ : Type) where
  | register (ticket : Nat) (competition listener : String)
  | unregister (ticket : Nat) (competition listener : String)
  | publish (e : Event μ)
  | start
  | stop (ticket : Nat)
  | join (ticket : Nat)

/-- An order as a command. -/
def Order.command : Order μ → Command μ
  | .register ticket competition listener => .register ticket competition listener
  | .unregister ticket competition listener => .unregister ticket competition listener
  | .publish e => .publish e
  | .start => .start
  | .stop ticket => .stop ticket
  | .join ticket => .join ticket

/-- The events that an order publishes. -/
def Order.published : Order μ → List (Event μ)
  | .publish e => [e]
  | _ => []

/-- The send or the close under way ends now, well or not, whatever was expected of the listener. -/
def Service.ends (a : Audience μ) (s : Service μ) (success : Bool) : Audience μ × Service μ :=
  match s.errand with
  | some ⟨name, .sending _, _⟩ =>
    if success then (a.receive name s.message, { s with errand := none })
    else (a, { s with errand := some ⟨name, .failed, 0⟩ })
  | some ⟨_, .closing, _⟩ => (a, { s with errand := none })
  | _ => (a, s)

/-- Whether a send or a close is under way. -/
def Service.isOut (s : Service μ) : Bool := s.errand.any (·.stage ≠ .failed)

/-- The send or the close under way ends now. -/
def ends (r : Relay μ) (ending : Ending) : Relay μ :=
  match r.delivery with
  | none => r
  | some d =>
    { r with
      audience := (d.service.ends r.audience ending.success).1
      delivery := some { d with
        service := (d.service.ends r.audience ending.success).2
        answered := if d.service.isOut then ending.ofItself else d.answered } }

theorem ends_of_none {r : Relay μ} (hd : r.delivery = none) (ending : Ending) :
    r.ends ending = r := by rw [ends, hd]

theorem ends_of_some {r : Relay μ} {d : Delivery μ} (hd : r.delivery = some d) (ending : Ending) :
    r.ends ending = { r with
      audience := (d.service.ends r.audience ending.success).1
      delivery := some { d with
        service := (d.service.ends r.audience ending.success).2
        answered := if d.service.isOut then ending.ofItself else d.answered } } := by
  rw [ends, hd]

/-- What happens to a relay, or what it does. -/
inductive Move (μ : Type) where
  | tell (order : Order μ)
  /-- A courier that was called off comes to it. -/
  | heed (name : Nat)
  /-- A caller who has stopped a courier that is gone goes on. -/
  | resume (s : Stop)
  /-- A courier takes the next event. -/
  | pull (name : Nat)
  /-- The delivery under way goes on. -/
  | proceed
  /-- The first turn that waits is taken. -/
  | next
  /-- A listener takes the message or refuses it, is done with closing, or its time is up. -/
  | ends (ending : Ending)
  | elapse (nanos : Nat)

/-- The relay after one move.  A move that cannot be made changes nothing. -/
def move (r : Relay μ) : Move μ → Relay μ
  | .tell order => r.act order.command
  | .heed name => (r.heed? name).getD r
  | .resume s => (r.resume? s).getD r
  | .pull name => (r.pull? name).getD r
  | .proceed => r.proceed?.getD r
  | .next => r.nextTurn?.getD r
  | .ends ending => r.ends ending
  | .elapse nanos => r.elapse nanos

/-- The relay after a list of moves. -/
def run (r : Relay μ) (moves : List (Move μ)) : Relay μ := moves.foldl move r

/-- The events that a move publishes. -/
def Move.published : Move μ → List (Event μ)
  | .tell order => order.published
  | _ => []

/-- What holds at first and is kept by each move, given what was published, holds after all moves. -/
theorem run_induction {P : Relay μ → List (Event μ) → Prop}
    (hstep : ∀ r published m, P r published → P (r.move m) (published ++ m.published))
    {r : Relay μ} {published : List (Event μ)} (hr : P r published) (moves : List (Move μ)) :
    P (r.run moves) (published ++ moves.flatMap Move.published) := by
  induction moves generalizing r published with
  | nil => simpa [run] using hr
  | cons m moves ih =>
    rw [List.flatMap_cons, ← List.append_assoc]
    exact ih (hstep r published m hr)

/-! ## Parcels -/

/-- The number of the event that a courier delivers. -/
def Sender.number? : Sender → Option Nat
  | .courier _ number => some number
  | .caller _ => none

/-- The courier that delivers. -/
def Sender.name? : Sender → Option Nat
  | .courier name _ => some name
  | .caller _ => none

/-- The numbers of the events in the hands of couriers, in the order of their turns. -/
def numbers (r : Relay μ) : List Nat := r.parcels.filterMap (·.1.number?)

/-- The couriers that have events in their hands. -/
def holders (r : Relay μ) : List Nat := r.parcels.filterMap (·.1.name?)

theorem Sender.isOf_iff {sender : Sender} {name : Nat} :
    sender.isOf name = true ↔ sender.name? = some name := by
  cases sender <;> simp [Sender.isOf, Sender.name?]

/-- Without messages under way there is no delivery. -/
theorem delivery_eq_none {r : Relay μ} (hfree : r.parcels = []) : r.delivery = none := by
  cases hd : r.delivery with
  | none => rfl
  | some d => simp [parcels, hd] at hfree

theorem Service.message_arrange? {patience : Option Nat} {a : Audience μ} {s : Service μ}
    {x : Audience μ × Service μ} (h : s.arrange? patience a = some x) :
    x.2.message = s.message := by
  unfold Service.arrange? at h
  split at h
  · simp at h
  · rw [← Option.some.inj h]
  · rw [← Option.some.inj h]
  · simp at h

theorem Service.message_ends (a : Audience μ) (s : Service μ) (success : Bool) :
    (s.ends a success).2.message = s.message := by
  unfold Service.ends
  split
  · split <;> rfl
  · rfl
  · rfl

theorem parcels_ends (r : Relay μ) (ending : Ending) : (r.ends ending).parcels = r.parcels := by
  unfold ends
  split
  · rfl
  · rename_i d hd
    simp only [parcels, hd, Option.map_some, Service.message_ends]

theorem parcels_elapse (r : Relay μ) (nanos : Nat) : (r.elapse nanos).parcels = r.parcels := by
  unfold elapse parcels
  rw [Option.map_map]
  rfl

theorem parcels_request {r : Relay μ} {t : Turn μ} (ht : t.parcel? = none) :
    (r.request t).parcels = r.parcels := by
  simp [request, parcels, ht]

theorem parcels_miss (r : Relay μ) (name : Nat) : (r.miss name).parcels = r.parcels := by
  unfold miss parcels
  rw [Option.map_map]
  rfl

/-- Taking a turn leaves the messages under way as they are. -/
theorem parcels_take {r : Relay μ} (hd : r.delivery = none) {t : Turn μ} {turns : List (Turn μ)}
    (ht : r.turns = t :: turns) : (take { r with turns } t).parcels = r.parcels := by
  cases t with
  | enroll => simp [take, parcels, hd, ht, List.filterMap_cons, Turn.parcel?]
  | withdraw => simp [take, parcels, hd, ht, List.filterMap_cons, Turn.parcel?]
  | deliver sender m => simp [take, parcels, hd, ht, Turn.parcel?, Service.start]

/-- When a courier goes, it puts down what it has. -/
theorem parcels_quit (r : Relay μ) (name : Nat) :
    (r.quit name).parcels = r.parcels.filter fun p => !p.1.isOf name := by
  have hturns : ∀ turns : List (Turn μ),
      (turns.filter fun t => !(t.parcel?.any (·.1.isOf name))).filterMap Turn.parcel? =
        (turns.filterMap Turn.parcel?).filter fun p => !p.1.isOf name := by
    intro turns
    induction turns with
    | nil => rfl
    | cons t turns ih =>
      cases t with
      | enroll | withdraw => simpa [List.filterMap_cons, Turn.parcel?] using ih
      | deliver sender m =>
        cases h : sender.isOf name <;> simpa [List.filterMap_cons, Turn.parcel?, h] using ih
  unfold parcels
  rw [List.filter_append, ← hturns]
  congr 1
  simp only [quit, release]
  cases r.delivery with
  | none => rfl
  | some d => cases hsender : d.sender.isOf name <;> simp [Option.filter, hsender]

/-- The delivery that ends is of the first message under way. -/
theorem parcels_finish {r : Relay μ} {d : Delivery μ} (hd : r.delivery = some d) :
    r.parcels = (d.sender, d.service.message) :: (r.finish d.sender).parcels := by
  unfold finish
  split <;> simp [parcels, release, hd]

/-- What a courier has in its hands, and what others have. -/
theorem countP_isCourier_filter (parcels : List (Sender × Message μ)) (name : Nat) :
    parcels.countP (·.1.isOf name) +
      (parcels.filter fun p => !p.1.isOf name).countP (·.1.isCourier) =
        parcels.countP (·.1.isCourier) := by
  induction parcels with
  | nil => rfl
  | cons p parcels ih =>
    obtain ⟨sender, m⟩ := p
    rw [List.countP_cons, List.countP_cons, List.filter_cons]
    cases sender with
    | courier other number =>
      by_cases hname : other = name <;> simp [Sender.isOf, Sender.isCourier, hname] at ih ⊢ <;> omega
    | caller ticket => simpa [Sender.isOf, Sender.isCourier] using ih

/-! ## Names -/

theorem names_miss (r : Relay μ) (name : Nat) : (r.miss name).names = r.names := by
  simp only [names, miss, List.map_map]
  refine List.map_congr_left fun c _ => ?_
  by_cases hname : c.name = name <;> simp [hname]

theorem names_call (r : Relay μ) (name : Nat) : (r.call name).names = r.names := by
  simp only [names, call, List.map_map]
  refine List.map_congr_left fun c _ => ?_
  by_cases hname : c.name = name <;> simp [hname]

theorem names_quit (r : Relay μ) (name : Nat) :
    (r.quit name).names = r.names.filter (· ≠ name) := by
  rw [names, names, List.filter_map]
  rfl

theorem running_iff {r : Relay μ} : r.running = true ↔ ∃ name ∈ r.known, name ∈ r.names := by
  cases h : r.known <;> simp [running, h]

/-! ## Accounts -/

/-- Numbers grow up to a last one if they grow, and are below it. -/
theorem pairwise_lt_append_iff {ns : List Nat} {last : Nat} :
    (ns ++ [last]).Pairwise (· < ·) ↔ ns.Pairwise (· < ·) ∧ ∀ n ∈ ns, n < last := by
  simp [List.pairwise_append]

/-- The accounts of a relay, given all events that were published. -/
structure Books (r : Relay μ) (published : List (Event μ)) : Prop where
  /-- The queue is what has not been taken from it. -/
  queue_eq : r.queue = published.drop r.pulled
  length_eq : r.pulled + r.queue.length = published.length
  /-- What has been taken is dispatched, or lost, or in flight. -/
  balance : r.completed + r.lost + r.inFlight = r.pulled
  names_nodup : r.names.Nodup
  names_lt : ∀ name ∈ r.names, name < r.hired
  /-- Each message under way is that of the event which a courier that is there has taken. -/
  carried : ∀ p ∈ r.parcels, ∃ name number e, p.1 = .courier name number ∧ name ∈ r.names ∧
    published[number]? = some e ∧ e.message? = some p.2
  /-- The events under way wait in the order in which they were published. -/
  inOrder : (r.numbers ++ [r.pulled]).Pairwise (· < ·)
  /-- No courier has two events in its hands. -/
  holders_nodup : r.holders.Nodup

theorem books_opened (patience : Option Nat) (listeners : List (Listener μ)) :
    Books { patience, audience := { listeners } } [] where
  queue_eq := rfl
  length_eq := rfl
  balance := rfl
  names_nodup := List.nodup_nil
  names_lt _ h := absurd h List.not_mem_nil
  carried _ h := absurd h List.not_mem_nil
  inOrder := List.pairwise_singleton _ _
  holders_nodup := List.nodup_nil

/-- What the accounts look at. -/
structure Account (μ : Type) where
  queue : List (Event μ)
  pulled : Nat
  completed : Nat
  lost : Nat
  names : List Nat
  hired : Nat
  parcels : List (Sender × Message μ)

/-- What the accounts look at in a relay. -/
def account (r : Relay μ) : Account μ :=
  ⟨r.queue, r.pulled, r.completed, r.lost, r.names, r.hired, r.parcels⟩

variable {r s : Relay μ} {published : List (Event μ)}

/-- A delivery is on behalf of a courier, and of the event that it has taken. -/
theorem Books.delivery (hb : r.Books published) {d : Delivery μ} (hd : r.delivery = some d) :
    ∃ name number e, d.sender = .courier name number ∧ name ∈ r.names ∧
      published[number]? = some e ∧ e.message? = some d.service.message :=
  hb.carried (d.sender, d.service.message) (by simp [parcels, hd])

/-- All that is under way is in the hands of couriers. -/
theorem Books.inFlight_eq (hb : r.Books published) : r.inFlight = r.parcels.length := by
  rw [inFlight, List.countP_eq_length]
  intro p hp
  obtain ⟨name, number, e, hsender, -⟩ := hb.carried p hp
  rw [hsender]
  rfl

/-- Where the accounts look, nothing has changed but what is named here: messages under way are put down
and counted, and couriers may have gone. -/
theorem Books.shrink (hb : r.Books published) (hqueue : s.queue = r.queue)
    (hpulled : s.pulled = r.pulled)
    (hbalance : s.completed + s.lost + s.inFlight = r.completed + r.lost + r.inFlight)
    (hnames : s.names.Sublist r.names) (hhired : s.hired = r.hired)
    (hparcels : s.parcels.Sublist r.parcels)
    (hheld : ∀ p ∈ s.parcels, ∀ name ∈ p.1.name?, name ∈ r.names → name ∈ s.names) :
    s.Books published where
  queue_eq := by
    rw [hqueue, hpulled]
    exact hb.queue_eq
  length_eq := by
    rw [hqueue, hpulled]
    exact hb.length_eq
  balance := by
    rw [hbalance, hpulled]
    exact hb.balance
  names_nodup := hnames.nodup hb.names_nodup
  names_lt name hname := by
    rw [hhired]
    exact hb.names_lt name (hnames.subset hname)
  carried p hp := by
    obtain ⟨name, number, e, hsender, hname, hevent⟩ := hb.carried p (hparcels.subset hp)
    refine ⟨name, number, e, hsender, hheld p hp name ?_ hname, hevent⟩
    rw [hsender]
    rfl
  inOrder := by
    rw [hpulled]
    exact hb.inOrder.sublist ((hparcels.filterMap _).append_right _)
  holders_nodup := (hparcels.filterMap _).nodup hb.holders_nodup

/-- Where the accounts look, nothing has changed. -/
theorem Books.congr (hb : r.Books published) (h : s.account = r.account) : s.Books published := by
  simp only [account, Account.mk.injEq] at h
  obtain ⟨hqueue, hpulled, hcompleted, hlost, hnames, hhired, hparcels⟩ := h
  refine hb.shrink hqueue hpulled ?_ (hnames ▸ .refl _) hhired (hparcels ▸ .refl _) ?_
  · rw [hcompleted, hlost, inFlight, hparcels]
    rfl
  · intro p _ name _ hname
    rwa [hnames]

theorem Books.publish (hb : r.Books published) (e : Event μ) :
    Books { r with queue := r.queue ++ [e] } (published ++ [e]) where
  queue_eq := by
    have hlength := hb.length_eq
    have hle : r.pulled ≤ published.length := by omega
    calc r.queue ++ [e]
        = published.drop r.pulled ++ [e] := by rw [← hb.queue_eq]
      _ = (published ++ [e]).drop r.pulled := (List.drop_append_of_le_length hle).symm
  length_eq := by
    rw [List.length_append, List.length_append, ← Nat.add_assoc]
    exact congrArg (· + 1) hb.length_eq
  balance := hb.balance
  names_nodup := hb.names_nodup
  names_lt := hb.names_lt
  carried p hp := by
    obtain ⟨name, number, e', hsender, hname, hnumber, hmessage⟩ := hb.carried p hp
    obtain ⟨hlt, -⟩ := List.getElem?_eq_some_iff.1 hnumber
    exact ⟨name, number, e', hsender, hname, (List.getElem?_append_left hlt).trans hnumber, hmessage⟩
  inOrder := hb.inOrder
  holders_nodup := hb.holders_nodup

theorem Books.start (hb : r.Books published) : r.start.Books published := by
  unfold Relay.start
  split
  · exact hb
  · have hnames : names { r with
        couriers := r.couriers ++ [{ name := r.hired }], known := some r.hired,
        hired := r.hired + 1 } = r.names ++ [r.hired] := by simp [names]
    refine ⟨hb.queue_eq, hb.length_eq, hb.balance, ?_, ?_, ?_, hb.inOrder, hb.holders_nodup⟩
    · rw [hnames]
      have hnew : r.hired ∉ r.names := fun h => Nat.lt_irrefl _ (hb.names_lt _ h)
      exact List.nodup_append_comm.1 (List.nodup_cons.2 ⟨hnew, hb.names_nodup⟩)
    · intro name hname
      rw [hnames, List.mem_append, List.mem_singleton] at hname
      change name < r.hired + 1
      rcases hname with hold | rfl
      · exact Nat.lt_succ_of_lt (hb.names_lt name hold)
      · exact Nat.lt_succ_self _
    · intro p hp
      obtain ⟨name, number, e, hsender, hname, hevent⟩ := hb.carried p hp
      refine ⟨name, number, e, hsender, ?_, hevent⟩
      rw [hnames]
      exact List.mem_append_left _ hname

/-- To call a courier off leaves the accounts as they are. -/
theorem account_stop (r : Relay μ) (ticket : Nat) : (r.stop ticket).account = r.account := by
  unfold Relay.stop
  split
  · rfl
  · rename_i name hknown
    split
    · have hnames := r.names_call name
      simp only [account, Account.mk.injEq]
      exact ⟨rfl, rfl, rfl, rfl, hnames, rfl, rfl⟩
    · rfl

theorem Books.request (hb : r.Books published) {t : Turn μ} (ht : t.parcel? = none) :
    (r.request t).Books published := by
  have hparcels := parcels_request (r := r) ht
  refine hb.congr ?_
  simp only [account, Account.mk.injEq]
  exact ⟨rfl, rfl, rfl, rfl, rfl, rfl, hparcels⟩

theorem Books.silent (hb : r.Books published) : r.Books (published ++ []) := by
  rw [List.append_nil]
  exact hb

/-- Every order keeps the accounts. -/
theorem Books.act (hb : r.Books published) (order : Order μ) :
    (r.act order.command).Books (published ++ order.published) := by
  cases order with
  | register ticket competition listener => exact (hb.request rfl).silent
  | unregister ticket competition listener => exact (hb.request rfl).silent
  | publish e => exact hb.publish e
  | start => exact hb.start.silent
  | stop ticket => exact (hb.congr (account_stop r ticket)).silent
  | join ticket =>
    have hsame : (r.act (.join ticket)).account = r.account := rfl
    exact (hb.congr hsame).silent

/-! ## Small steps and the accounts -/

theorem Books.quit (hb : r.Books published) (name : Nat) : (r.quit name).Books published := by
  have hparcels := r.parcels_quit name
  refine hb.shrink ?_ ?_ ?_ ?_ ?_ ?_ ?_
  · rfl
  · rfl
  · have hsplit := countP_isCourier_filter r.parcels name
    rw [inFlight, hparcels, inFlight]
    change r.completed + (r.lost + r.parcels.countP (·.1.isOf name)) + _ = _
    omega
  · rw [names_quit]
    exact List.filter_sublist
  · rfl
  · rw [hparcels]
    exact List.filter_sublist
  · intro p hp other hother hname
    rw [hparcels, List.mem_filter] at hp
    rw [names_quit, List.mem_filter]
    refine ⟨hname, decide_eq_true ?_⟩
    rintro rfl
    simp [Sender.isOf_iff.2 hother] at hp

theorem Books.heed? {name : Nat} (hb : r.Books published) (h : r.heed? name = some s) :
    s.Books published := by
  unfold Relay.heed? at h
  split at h
  · split at h
    · obtain rfl := Option.some.inj h
      refine hb.congr ?_
      have hnames := r.names_miss name
      have hparcels := r.parcels_miss name
      simp only [account, Account.mk.injEq]
      exact ⟨rfl, rfl, rfl, rfl, hnames, rfl, hparcels⟩
    · obtain rfl := Option.some.inj h
      exact hb.quit name
  · simp at h

theorem Books.resume? {stop : Stop} (hb : r.Books published) (h : r.resume? stop = some s) :
    s.Books published := by
  unfold Relay.resume? at h
  split at h
  · obtain rfl := Option.some.inj h
    exact hb.congr rfl
  · simp at h

/-- What a courier that is idle does not have. -/
theorem not_mem_holders {name : Nat} (hidle : r.isIdle name = true) : name ∉ r.holders := by
  intro hmem
  obtain ⟨p, hp, hname⟩ := List.mem_filterMap.1 hmem
  exact (of_decide_eq_true hidle).2 p hp (Sender.isOf_iff.2 hname)

theorem mem_names_of_isIdle {name : Nat} (hidle : r.isIdle name = true) : name ∈ r.names :=
  List.mem_map.2 ⟨_, (of_decide_eq_true hidle).1, rfl⟩

/-- The head of the queue is the first event that has not been taken. -/
theorem Books.head_eq (hb : r.Books published) {e : Event μ} {queue : List (Event μ)}
    (hqueue : r.queue = e :: queue) : published[r.pulled]? = some e ∧
      queue = published.drop (r.pulled + 1) ∧ r.pulled + 1 + queue.length = published.length := by
  have hdrop := hb.queue_eq
  have hlength := hb.length_eq
  rw [hqueue, List.length_cons] at hlength
  have hlt : r.pulled < published.length := by omega
  rw [hqueue, List.drop_eq_getElem_cons hlt, List.cons.injEq] at hdrop
  refine ⟨?_, hdrop.2, by omega⟩
  rw [hdrop.1]
  exact List.getElem?_eq_getElem hlt

/-- A courier takes the next event that was published. -/
theorem Books.pull? {name : Nat} (hb : r.Books published) (h : r.pull? name = some s) :
    s.Books published := by
  unfold Relay.pull? at h
  split at h
  · rename_i e queue hidle hqueue
    obtain ⟨he, hrest, hlength⟩ := hb.head_eq hqueue
    have hbalance := hb.balance
    split at h
    · obtain rfl := Option.some.inj h
      obtain ⟨hnumbers, hbelow⟩ := pairwise_lt_append_iff.1 hb.inOrder
      have hinOrder : (r.numbers ++ [r.pulled + 1]).Pairwise (· < ·) :=
        pairwise_lt_append_iff.2 ⟨hnumbers, fun n hn => Nat.lt_succ_of_lt (hbelow n hn)⟩
      refine ⟨hrest, hlength, ?_, hb.names_nodup, hb.names_lt, hb.carried, hinOrder, hb.holders_nodup⟩
      change r.completed + 1 + r.lost + r.inFlight = r.pulled + 1
      omega
    · rename_i m hm
      obtain rfl := Option.some.inj h
      have hparcels : parcels { r with
          queue, pulled := r.pulled + 1,
          turns := r.turns ++ [.deliver (.courier name r.pulled) m] } =
            r.parcels ++ [(.courier name r.pulled, m)] := by
        simp [parcels, Turn.parcel?]
      refine ⟨hrest, hlength, ?_, hb.names_nodup, hb.names_lt, ?_, ?_, ?_⟩
      · rw [inFlight, hparcels, List.countP_append]
        change r.completed + r.lost + (r.inFlight + 1) = r.pulled + 1
        omega
      · intro p hp
        rw [hparcels, List.mem_append, List.mem_singleton] at hp
        rcases hp with hold | rfl
        · exact hb.carried p hold
        · exact ⟨name, r.pulled, e, rfl, mem_names_of_isIdle (r := r) hidle, he, hm⟩
      · rw [numbers, hparcels, List.filterMap_append]
        refine pairwise_lt_append_iff.2 ⟨hb.inOrder, fun n hn => ?_⟩
        rcases List.mem_append.1 hn with hold | hnew
        · exact Nat.lt_succ_of_lt ((pairwise_lt_append_iff.1 hb.inOrder).2 n hold)
        · exact Nat.lt_succ_of_le (Nat.le_of_eq (List.mem_singleton.1 hnew))
      · rw [holders, hparcels, List.filterMap_append]
        exact List.nodup_append_comm.1 (List.nodup_cons.2 ⟨not_mem_holders hidle, hb.holders_nodup⟩)
  · simp at h

/-- A delivery ends. -/
theorem Books.finish (hb : r.Books published) {d : Delivery μ} (hd : r.delivery = some d) :
    (r.finish d.sender).Books published := by
  obtain ⟨name, number, e, hsender, -⟩ := hb.delivery hd
  have hparcels := parcels_finish hd
  rw [hsender] at hparcels ⊢
  have hcount : r.inFlight = (r.finish (.courier name number)).inFlight + 1 := by
    rw [inFlight, hparcels, List.countP_cons]
    rfl
  have hsublist : (r.finish (.courier name number)).parcels.Sublist r.parcels := by
    rw [hparcels]
    exact List.sublist_cons_self _ _
  refine hb.shrink rfl rfl ?_ (.refl _) rfl hsublist fun p _ other _ hother => hother
  change r.completed + 1 + r.lost + _ = _
  omega

theorem Books.proceed? (hb : r.Books published) (h : r.proceed? = some s) : s.Books published := by
  unfold Relay.proceed? at h
  split at h
  · simp at h
  · rename_i d hd
    split at h
    · simp at h
    split at h
    · obtain rfl := Option.some.inj h
      exact hb.finish hd
    · obtain ⟨x, hx, rfl⟩ := Option.map_eq_some_iff.1 h
      refine hb.congr ?_
      simp only [account, names, parcels, hd, Option.map_some, Service.message_arrange? hx]

theorem Books.nextTurn? (hb : r.Books published) (h : r.nextTurn? = some s) : s.Books published := by
  unfold Relay.nextTurn? at h
  split at h
  · rename_i t turns hd ht
    split at h
    · simp at h
    obtain rfl := Option.some.inj h
    have hparcels := parcels_take hd ht
    apply hb.congr
    cases t with
    | enroll | withdraw | deliver =>
      simp only [account, Account.mk.injEq]
      exact ⟨rfl, rfl, rfl, rfl, rfl, rfl, hparcels⟩
  · simp at h

theorem account_ends (r : Relay μ) (ending : Ending) : (r.ends ending).account = r.account := by
  have hparcels := r.parcels_ends ending
  simp only [account, Account.mk.injEq]
  refine ⟨?_, ?_, ?_, ?_, ?_, ?_, hparcels⟩
  all_goals
    unfold Relay.ends
    split <;> rfl

theorem account_elapse (r : Relay μ) (nanos : Nat) : (r.elapse nanos).account = r.account := by
  have hparcels := r.parcels_elapse nanos
  simp only [account, Account.mk.injEq]
  exact ⟨rfl, rfl, rfl, rfl, rfl, rfl, hparcels⟩

/-- Every move keeps the accounts. -/
theorem Books.move (hb : r.Books published) (m : Move μ) :
    (r.move m).Books (published ++ m.published) := by
  -- A move that cannot be made changes nothing.
  have hgetD : ∀ o : Option (Relay μ), (∀ s, o = some s → s.Books published) →
      (o.getD r).Books published := by
    intro o ho
    cases o with
    | none => exact hb
    | some s => exact ho s rfl
  cases m with
  | tell order => exact hb.act order
  | heed name => exact (hgetD _ fun s hs => hb.heed? hs).silent
  | resume stop => exact (hgetD _ fun s hs => hb.resume? hs).silent
  | pull name => exact (hgetD _ fun s hs => hb.pull? hs).silent
  | proceed => exact (hgetD _ fun s hs => hb.proceed? hs).silent
  | next => exact (hgetD _ fun s hs => hb.nextTurn? hs).silent
  | ends ending => exact (hb.congr (account_ends r ending)).silent
  | elapse nanos => exact (hb.congr (account_elapse r nanos)).silent

theorem Books.run (hb : r.Books published) (moves : List (Move μ)) :
    (r.run moves).Books (published ++ moves.flatMap Move.published) :=
  run_induction (fun _ _ m h => h.move m) hb moves

end PuzzleContest.Relay
