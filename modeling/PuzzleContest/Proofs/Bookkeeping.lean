import PuzzleContest.Proofs.Ledger

/-!
# The bookkeeping of the broadcast hub

After every small step the accounts of a relay are right: no event is taken up twice, each stop loses one
event at most, and whoever waits for the end waits for some event.  Where a relay has come to rest, the
turn at the roster is held only while a listener is waited for, and what is left is dispatched after the
next start.

A courier that was called off goes, unless what it waited for has ended of itself in the meantime: then
it misses the call, goes on, and whoever stopped it waits.  And there is one courier at most, if nobody
starts the relay between the end of a courier and the end of a stop that waits for it.

Main definitions:

- `Relay.Accounted`, `Relay.Steady`: what holds after every small step, and in every state at rest.
- `Relay.Unhurried`: nobody starts the relay before those who stop it have gone on.
- `Relay.Alone`, `Relay.Single`: what holds besides, if everybody waits.

Main results:

- `Relay.Alone.run`: there is one courier at most, if everybody waits.
- `Relay.steady_run`: all this holds after any moves.
- `Relay.not_forall_stopped`: a stop that is missed, and two couriers at a time.
-/

namespace PuzzleContest.Relay

variable {μ : Type} {r s : Relay μ} {published : List (Event μ)}

/-! ## One courier at a time -/

/-- Nobody starts the relay, when no courier is known to be there, before all those who stop it have gone
on. -/
def Unhurried (r : Relay μ) : List (Move μ) → Prop
  | [] => True
  | m :: moves => (m = .tell .start → r.running = true ∨ r.stops = []) ∧ (r.move m).Unhurried moves

/-- There is no courier but the one that starting and stopping go by, and whoever stops one stops
that one. -/
structure Alone (r : Relay μ) : Prop where
  known : ∀ name ∈ r.names, r.known = some name
  stopping : ∀ stop ∈ r.stops, ∀ name ∈ r.known, stop.courier = name

/-- Where nobody is known to be there, nobody is. -/
theorem Alone.names_eq_nil (hr : r.Alone) (hoff : r.running = false) : r.names = [] := by
  refine List.eq_nil_iff_forall_not_mem.2 fun name hname => ?_
  have hrunning : r.running = true := running_iff.2 ⟨name, hr.known name hname, hname⟩
  simp [hoff] at hrunning

theorem Alone.step (hr : r.Alone) (h : Step r s) : s.Alone := by
  cases h with
  | @miss name =>
    refine ⟨fun other hother => hr.known other ?_, hr.stopping⟩
    rwa [names_miss] at hother
  | @quit name =>
    refine ⟨fun other hother => ?_, hr.stopping⟩
    rw [names_quit, List.mem_filter] at hother
    exact hr.known other hother.1
  | resume hstop hgone =>
    refine ⟨fun name hname => ?_, fun _ _ name hname => absurd hname (by simp)⟩
    -- Whoever is there would be the one that is gone.
    have hknown := hr.known name hname
    exact absurd (hr.stopping _ hstop name hknown ▸ hname) hgone
  | skip | pull | serve => exact ⟨hr.known, hr.stopping⟩
  | @finish d hd => cases d.sender <;> exact ⟨hr.known, hr.stopping⟩
  | @take t turns hd ht => cases t <;> exact ⟨hr.known, hr.stopping⟩
  | ends ending =>
    unfold ends
    split <;> exact ⟨hr.known, hr.stopping⟩

theorem Alone.start (hr : r.Alone) (hfree : r.running = true ∨ r.stops = []) : r.start.Alone := by
  unfold Relay.start
  split
  · exact hr
  · rename_i hoff
    have hnames := hr.names_eq_nil ((Bool.not_eq_true _).mp hoff)
    have hstops : r.stops = [] := hfree.resolve_left hoff
    refine ⟨fun name hname => ?_, fun stop hstop => absurd hstop (by simp [hstops])⟩
    have hnew : name ∈ r.names ++ [r.hired] := by simpa [names] using hname
    rw [hnames, List.nil_append, List.mem_singleton] at hnew
    rw [hnew]

theorem Alone.stop (hr : r.Alone) (ticket : Nat) : (r.stop ticket).Alone := by
  unfold Relay.stop
  split
  · exact hr
  · rename_i name hknown
    split
    · constructor
      · change ∀ name ∈ (r.call _).names, r.known = some name
        rw [names_call]
        exact hr.known
      · intro stop hstop other hother
        rcases List.mem_append.1 hstop with hold | hnew
        · exact hr.stopping stop hold other hother
        · rw [List.mem_singleton.1 hnew]
          exact Option.some.inj (hknown.symm.trans hother)
    · rename_i hgone
      refine ⟨fun other hother => ?_, fun _ _ _ hother => absurd hother (by simp)⟩
      have hsame := Option.some.inj (hknown.symm.trans (hr.known other hother))
      exact absurd (hsame ▸ hother) hgone

theorem Alone.move (hr : r.Alone) {m : Move μ}
    (hfree : m = .tell .start → r.running = true ∨ r.stops = []) : (r.move m).Alone := by
  rcases move_cases r m with ⟨order, rfl⟩ | ⟨nanos, rfl⟩ | ⟨-, hsame | h⟩
  · cases order with
    | start => exact hr.start (hfree rfl)
    | stop ticket => exact hr.stop ticket
    | register | unregister | publish | join => exact ⟨hr.known, hr.stopping⟩
  · exact ⟨hr.known, hr.stopping⟩
  · rw [hsame]
    exact hr
  · exact hr.step h

/-- There is one courier at most, as long as everybody waits. -/
theorem Alone.run (hr : r.Alone) {moves : List (Move μ)} (hfree : r.Unhurried moves) :
    (r.run moves).Alone := by
  induction moves generalizing r with
  | nil => exact hr
  | cons m moves ih => exact ih (hr.move hfree.1) hfree.2

theorem Alone.length_names_le (hr : r.Alone) (hnodup : r.names.Nodup) : r.names.length ≤ 1 := by
  rcases hnames : r.names with _ | ⟨first, _ | ⟨second, rest⟩⟩
  · exact Nat.zero_le _
  · exact Nat.le_refl _
  · have hfirst := hr.known first (by simp [hnames])
    have hsecond := hr.known second (by simp [hnames])
    rw [hnames] at hnodup
    obtain rfl := Option.some.inj (hfirst.symm.trans hsecond)
    exact absurd List.mem_cons_self (List.nodup_cons.1 hnodup).1

/-- A single courier has what is in flight. -/
theorem Alone.inFlight_eq (hr : r.Alone) (hb : r.Books published) {name : Nat}
    (hname : name ∈ r.names) : r.inFlight = r.parcels.countP (·.1.isOf name) := by
  refine List.countP_congr fun p hp => ?_
  obtain ⟨other, number, e, hsender, hother, -⟩ := hb.carried p hp
  have hsame := Option.some.inj ((hr.known other hother).symm.trans (hr.known name hname))
  simp [hsender, hsame, Sender.isCourier, Sender.isOf]

/-! ## A stop at rest -/

/-- What has ended of itself is not under way. -/
def Honest (r : Relay μ) : Prop := ∀ d ∈ r.delivery, d.answered = true → d.service.isOut = false

theorem Service.isOut_ends (a : Audience μ) (sv : Service μ) (success : Bool) :
    (sv.ends a success).2.isOut = false ∨ sv.isOut = false ∧ (sv.ends a success).2 = sv := by
  rcases herrand : sv.errand with _ | ⟨name, _ | _ | _, left⟩
  · exact .inr ⟨by simp [Service.isOut, herrand], by simp [Service.ends, herrand]⟩
  · cases success <;> exact .inl (by simp [Service.ends, Service.isOut, herrand])
  · exact .inr ⟨by simp [Service.isOut, herrand], by simp [Service.ends, herrand]⟩
  · exact .inl (by simp [Service.ends, Service.isOut, herrand])

theorem Honest.step (hr : r.Honest) (h : Step r s) : s.Honest := by
  cases h with
  | miss =>
    intro d hd hanswered
    obtain ⟨d', -, rfl⟩ := Option.map_eq_some_iff.1 hd
    simp at hanswered
  | quit => exact fun d hd => hr d (Option.filter_eq_some_iff.1 hd).1
  | resume | skip | pull => exact hr
  | @finish d hd => cases d.sender <;> exact fun _ hd => absurd hd (by simp [finish, release])
  | serve =>
    intro d hd hanswered
    obtain rfl := Option.some.inj hd
    simp at hanswered
  | @take t turns hd ht =>
    cases t with
    | enroll | withdraw => exact hr
    | deliver sender m =>
      intro d hd hanswered
      obtain rfl := Option.some.inj hd
      simp at hanswered
  | ends ending =>
    intro d' hd' hanswered
    cases hd : r.delivery with
    | none =>
      rw [ends_of_none hd] at hd'
      exact hr d' hd' hanswered
    | some d =>
      rw [ends_of_some hd] at hd'
      obtain rfl := Option.some.inj hd'
      rcases Service.isOut_ends r.audience d.service ending.success with hin | ⟨hin, hsame⟩
      · exact hin
      · rw [hsame]
        exact hin

theorem Honest.act (hr : r.Honest) (order : Order μ) : (r.act order.command).Honest := by
  cases order with
  | start =>
    simp only [Order.command, Relay.act, Relay.start]
    split <;> exact hr
  | stop ticket =>
    simp only [Order.command, Relay.act, Relay.stop]
    split
    · exact hr
    · split <;> exact hr
  | register | unregister | publish | join => exact hr

theorem Honest.elapse (hr : r.Honest) (nanos : Nat) : (r.elapse nanos).Honest := by
  intro d' hd' hanswered
  obtain ⟨d, hd, rfl⟩ := Option.map_eq_some_iff.1 hd'
  have hin := hr d hd hanswered
  simp only [Service.isOut, Service.elapse, Option.any_map] at hin ⊢
  exact hin

theorem Honest.run (hr : r.Honest) (moves : List (Move μ)) : (r.run moves).Honest :=
  run_keeps (fun _ order h => h.act order) (fun _ _ => Honest.step) (fun _ n h => h.elapse n) hr moves

/-- At rest no courier has an ending to take up. -/
theorem Honest.isAnswered_eq (hr : r.Honest) (hrest : r.Resting) (name : Nat) :
    r.isAnswered name = false := by
  rw [isAnswered, Option.any_eq_false]
  intro d hd
  obtain ⟨e, herrand, hstage, -⟩ := hrest.held d hd
  have hout : d.service.isOut = true := by simp [Service.isOut, herrand, hstage]
  have hanswered : d.answered = false := by
    cases hans : d.answered with
    | false => rfl
    | true => simp [hr d hd hans] at hout
  simp [hanswered]

/-- What has become of a relay that was stopped. -/
structure Stopped (r s : Relay μ) : Prop where
  names_eq : s.names = []
  stops_eq : s.stops = []
  delivery_eq : s.delivery = none
  turns_eq : s.turns = []
  queue_eq : s.queue = r.queue
  completed_eq : s.completed = r.completed
  lost_eq : s.lost = r.lost + r.inFlight

/-- Without couriers, a relay that settles is stopped. -/
theorem Books.stopped_settle (hb : r.Books published) (hnone : r.names = []) :
    Stopped r r.settle := by
  have hkept := hb.kept_settle hnone
  have hrest : r.settle.Resting := resting_of_step? (step?_settle r)
  have hdelivery := delivery_eq_none (hb.settle.parcels_eq_nil hkept.names_eq)
  have hflight : r.inFlight = 0 := by simp [inFlight, hb.parcels_eq_nil hnone]
  refine ⟨hkept.names_eq, ?_, hdelivery, hrest.free hdelivery, hkept.queue_eq, hkept.completed_eq,
    ?_⟩
  · refine List.eq_nil_iff_forall_not_mem.2 fun stop hstop => ?_
    have hthere := hrest.stopping stop hstop
    simp [hkept.names_eq] at hthere
  · rw [hkept.lost_eq, hflight]
    rfl

theorem Stopped.congr {t : Relay μ} (h : Stopped s t) (hsame : s.account = r.account) :
    Stopped r t := by
  simp only [account, Account.mk.injEq] at hsame
  obtain ⟨hqueue, -, hcompleted, hlost, -, -, hparcels⟩ := hsame
  refine ⟨h.names_eq, h.stops_eq, h.delivery_eq, h.turns_eq, h.queue_eq.trans hqueue,
    h.completed_eq.trans hcompleted, h.lost_eq.trans ?_⟩
  rw [inFlight, inFlight, hlost, hparcels]

/-- What a courier loses when it goes was in flight before. -/
theorem Stopped.of_quit {name : Nat} {t : Relay μ} (h : Stopped (r.quit name) t) : Stopped r t := by
  refine ⟨h.names_eq, h.stops_eq, h.delivery_eq, h.turns_eq, h.queue_eq, h.completed_eq,
    h.lost_eq.trans ?_⟩
  have hsplit := countP_isCourier_filter r.parcels name
  rw [inFlight, parcels_quit, inFlight]
  change r.lost + r.parcels.countP (·.1.isOf name) + _ = _
  omega

/-- At rest, a courier that is called off goes first of all. -/
theorem Honest.settle_stop (hr : r.Honest) (hrest : r.Resting) {name : Nat}
    (hknown : r.known = some name) (hnames : r.names = [name]) (ticket : Nat) :
    (r.stop ticket).settle = ((r.stop ticket).quit name).settle := by
  have hthere : name ∈ r.names := by simp [hnames]
  have hstop : r.stop ticket = { r.call name with stops := r.stops ++ [⟨ticket, name⟩] } := by
    rw [stop, hknown]
    exact if_pos hthere
  have hcalled : (r.stop ticket).isCalled name = true := by
    rw [hstop, isCalled, decide_eq_true_eq]
    obtain ⟨c, hc, rfl⟩ := List.mem_map.1 hthere
    exact List.mem_map.2 ⟨c, hc, if_pos rfl⟩
  have hwaits : (r.stop ticket).isAnswered name = false := by
    rw [hstop]
    exact hr.isAnswered_eq hrest name
  have hsame : (r.stop ticket).names = [name] := by
    rw [hstop]
    exact (names_call r name).trans hnames
  apply settle_eq_of_step?
  simp [step?, arrange?, hsame, heed?, hcalled, hwaits]

/-- A stop that comes at rest finds the courier, which puts down what it has and goes. -/
theorem Alone.stopped_undergo (hr : r.Alone) (hb : r.Books published) (hhonest : r.Honest)
    (hrest : r.Resting) (ticket : Nat) : Stopped r (r.undergo (.tell (.stop ticket))) := by
  change Stopped r (r.stop ticket).settle
  have hsame := account_stop r ticket
  have hafter : (r.stop ticket).Books published := hb.congr hsame
  have hnames : (r.stop ticket).names = r.names := congrArg Account.names hsame
  refine Stopped.congr ?_ hsame
  rcases hcouriers : r.names with _ | ⟨name, rest⟩
  · exact hafter.stopped_settle (hnames.trans hcouriers)
  · have hlength := hr.length_names_le hb.names_nodup
    have hrest' : rest = [] := by
      rw [hcouriers, List.length_cons] at hlength
      exact List.length_eq_zero_iff.1 (by omega)
    subst hrest'
    have hknown : r.known = some name := hr.known name (by simp [hcouriers])
    rw [hhonest.settle_stop hrest hknown hcouriers]
    refine Stopped.of_quit ((hafter.quit name).stopped_settle ?_)
    rw [names_quit, hnames, hcouriers]
    simp

/-! ## All together -/

/-- What holds after every small step, given the published events and the number of stops so far. -/
structure Accounted (r : Relay μ) (published : List (Event μ)) (stops : Nat) : Prop where
  /-- No competition without listeners has an entry. -/
  filled : r.audience.roster.Filled
  balance : published.length = r.completed + r.lost + r.queue.length + r.inFlight
  /-- The queue is what has not been taken from it. -/
  queue_eq : r.queue = published.drop r.pulled
  /-- Each message under way is that of an event that a courier which is there has taken. -/
  carried : ∀ p ∈ r.parcels, ∃ name number e, p.1 = .courier name number ∧ name ∈ r.names ∧
    published[number]? = some e ∧ e.message? = some p.2
  /-- They take their turns in the order in which they were published. -/
  inOrder : (r.numbers ++ [r.pulled]).Pairwise (· < ·)
  /-- No courier has two events in its hands. -/
  own : r.holders.Nodup
  /-- Nothing is taken, done with or lost twice. -/
  forward : ∀ m, r.pulled ≤ (r.move m).pulled ∧ r.completed ≤ (r.move m).completed ∧
    r.lost ≤ (r.move m).lost
  /-- Each stop loses one event at most. -/
  lost_le : r.lost ≤ stops
  /-- Only a courier that comes to it that it was called off loses an event. -/
  loses : ∀ m, (r.move m).lost = r.lost ∨ ∃ name, r.isCalled name = true ∧
    r.isAnswered name = false ∧ r.move m = r.quit name ∧ (r.quit name).lost ≤ r.lost + 1
  /-- It goes, unless what it waited for has ended of itself. -/
  goes : ∀ name, r.isCalled name = true →
    (name ∈ (r.move (.heed name)).names ↔ r.isAnswered name = true)
  /-- While there is no courier, all that is left stays in the queue. -/
  kept : r.names = [] → ∀ m, m ≠ .tell .start → (r.move m).names = [] ∧
    (r.move m).queue = r.queue ++ m.published ∧ (r.move m).completed = r.completed ∧
    (r.move m).lost = r.lost
  awaited : r.Awaited
  letGo : ∀ m, Awaits (r.joiners ++ m.joining) (r.move m)

/-- What holds besides where a relay has come to rest. -/
structure Steady (r : Relay μ) : Prop where
  /-- The turn at the roster is held by a delivery whose send or close is under way. -/
  held : ∀ d ∈ r.delivery, ∃ e, d.service.errand = some e ∧ e.stage ≠ .failed ∧ 0 < e.left
  /-- Nobody waits for a turn that is free. -/
  free : r.delivery = none → r.turns = []
  /-- Whoever was called off has come to it. -/
  uncalled : ∀ c ∈ r.couriers, c.called = false
  /-- Whoever waits for a courier to go waits for one that is there. -/
  stopping : ∀ stop ∈ r.stops, stop.courier ∈ r.names
  /-- What is left is dispatched after the next start, in time for so many events. -/
  served : ∀ occurrences : List (Occurrence μ), (∀ o ∈ occurrences, o.isStop = false) →
    r.unfinished * r.allowance ≤ (occurrences.map Occurrence.nanos).sum →
      r.completed + r.unfinished ≤
        ((r.undergo (.tell .start)).undergoAll occurrences).completed

/-- What holds besides as long as nobody starts the relay between the end of a courier and the end of a
stop that waits for it. -/
structure Single (r : Relay μ) : Prop where
  names_le : r.names.length ≤ 1
  inFlight_le : r.inFlight ≤ 1
  /-- The courier that is there is the one that starting and stopping go by. -/
  off : r.running = false → r.names = []
  /-- A stop at rest has the courier go, and keeps the queue. -/
  stopped : r.step? = none → ∀ ticket, Stopped r (r.undergo (.tell (.stop ticket)))

theorem Books.loses (hb : r.Books published) (m : Move μ) : (r.move m).lost = r.lost ∨
    ∃ name, r.isCalled name = true ∧ r.isAnswered name = false ∧ r.move m = r.quit name ∧
      (r.quit name).lost ≤ r.lost + 1 := by
  rcases move_cases r m with ⟨order, rfl⟩ | ⟨nanos, rfl⟩ | ⟨-, hsame | h⟩
  · exact .inl (counts_act r order).2.2
  · exact .inl rfl
  · rw [hsame]
    exact .inl rfl
  · rcases lost_cases h with ⟨hlost, -⟩ | ⟨name, hcalled, hwaits, heq⟩
    · exact .inl hlost
    · exact .inr ⟨name, hcalled, hwaits, heq, (hb.quit_le hcalled).1⟩

theorem mem_names_heed_iff {name : Nat} (hcalled : r.isCalled name = true) :
    name ∈ (r.move (.heed name)).names ↔ r.isAnswered name = true := by
  have hthere : name ∈ r.names := mem_names (of_decide_eq_true hcalled)
  rw [move, heed?, if_pos hcalled, Option.getD_some]
  split
  · rename_i hanswered
    rw [names_miss]
    exact iff_of_true hthere hanswered
  · rename_i hwaits
    rw [names_quit]
    exact iff_of_false (by simp) hwaits

theorem Books.accounted (hb : r.Books published) (hfilled : r.audience.roster.Filled)
    (hawaited : r.Awaited) {stops : Nat} (hlost : r.lost ≤ stops) : Accounted r published stops where
  filled := hfilled
  balance := by
    have hlength := hb.length_eq
    have hbalance := hb.balance
    omega
  queue_eq := hb.queue_eq
  carried := hb.carried
  inOrder := hb.inOrder
  own := hb.holders_nodup
  forward := forward_move r
  lost_le := hlost
  loses := hb.loses
  goes _ hcalled := mem_names_heed_iff hcalled
  kept hnone _ hne := hb.kept_move hnone hne
  awaited := hawaited
  letGo m := (joiners_move hawaited m).2

theorem Books.steady (hb : r.Books published) (hpaced : r.Paced) (hrest : r.Resting) : Steady r where
  held := hrest.held
  free := hrest.free
  uncalled := hrest.uncalled
  stopping := hrest.stopping
  served _ hstop htime := hb.completed_undergoAll hpaced hrest hstop htime

theorem Alone.single (hr : r.Alone) (hb : r.Books published) (hhonest : r.Honest) : Single r where
  names_le := hr.length_names_le hb.names_nodup
  inFlight_le := by
    rcases hnames : r.names with _ | ⟨name, rest⟩
    · simp [inFlight, hb.parcels_eq_nil hnames]
    · have hname : name ∈ r.names := by simp [hnames]
      rw [hr.inFlight_eq hb hname]
      exact hb.countP_isOf_le name
  off := hr.names_eq_nil
  stopped hquiet := hr.stopped_undergo hb hhonest (resting_of_step? hquiet)

/-- What can be relied on after any moves: at every moment, at rest, and as long as nobody starts the
relay before those who stop it have gone on. -/
theorem steady_run (patience : Option Nat) (listeners : List (Listener μ)) (moves : List (Move μ)) :
    let opened : Relay μ := { patience, audience := { listeners } }
    let r := opened.run moves
    Accounted r (moves.flatMap Move.published) (moves.countP Move.isStop) ∧
      (r.step? = none → Steady r) ∧ (opened.Unhurried moves → Single r) := by
  intro opened r
  have hopened : opened.Books [] := books_opened patience listeners
  have hb : r.Books (moves.flatMap Move.published) := hopened.run moves
  have hfilled : r.audience.roster.Filled := filled_run (fun _ h => absurd h List.not_mem_nil) moves
  have hawaited : r.Awaited := run_keeps (fun _ order h => (joiners_act h order).1)
    (fun _ _ h hstep => (joiners_step h hstep).1) (fun r nanos h => (joiners_move h (.elapse nanos)).1)
    (fun h => absurd rfl h) moves
  have hlost := hopened.lost_run_le moves
  have hpaced : r.Paced := Paced.run (fun _ h => absurd h (by simp [opened])) moves
  have hhonest : r.Honest := Honest.run (fun _ h => absurd h (by simp [opened])) moves
  refine ⟨hb.accounted hfilled hawaited ?_, ?_, ?_⟩
  · have hnone : opened.lost + opened.calls = 0 := rfl
    change (opened.run moves).lost ≤ _
    omega
  · exact fun hquiet => hb.steady hpaced (resting_of_step? hquiet)
  · intro hfree
    have halone : opened.Alone :=
      ⟨fun _ h => absurd h List.not_mem_nil, fun _ h => absurd h List.not_mem_nil⟩
    exact (halone.run hfree).single hb hhonest

/-- A relay with one listener, who takes every message at once. -/
def plainRelay : Relay Nat := { patience := some 1, audience := { listeners := [{ name := "a" }] } }

/-- The relay is started, stopped and, when the courier is gone, started again. -/
def patient : List (Move Nat) :=
  [.tell .start, .tell (.stop 1), .heed 0, .resume ⟨1, 0⟩, .tell .start]

theorem steady_run_sample : (plainRelay.run patient).step? = none ∧ plainRelay.Unhurried patient ∧
    Steady (plainRelay.run patient) ∧ Single (plainRelay.run patient) := by
  have hrest : (plainRelay.run patient).step? = none := by decide
  have hfree : plainRelay.Unhurried patient :=
    ⟨fun _ => .inr rfl, nofun, nofun, nofun, fun _ => .inr rfl, trivial⟩
  obtain ⟨-, hsteady, hsingle⟩ := steady_run (some 1) plainRelay.audience.listeners patient
  exact ⟨hrest, hfree, hsteady hrest, hsingle hfree⟩

/-- Two callers stop the relay and start it again at the same time. -/
def overlapping : List (Move Nat) :=
  [.tell .start, .tell (.stop 1), .tell (.stop 2), .heed 0, .resume ⟨1, 0⟩, .tell .start,
    .resume ⟨2, 0⟩, .tell .start]

/-- The first of two events has just arrived at its listener. -/
def arrived : List (Move Nat) :=
  [.tell (.register 1 "c" "a"), .next, .tell (.publish ⟨"c", some 1⟩),
    .tell (.publish ⟨"c", some 2⟩), .tell .start, .pull 0, .next, .proceed, .ends .well]

/-- What follows where the relay is stopped then: the courier goes on with what has arrived, and takes
the next event. -/
def missed : List (Move Nat) :=
  [.heed 0, .proceed, .pull 0, .next, .proceed, .ends .well, .proceed]

/-- The relay can come to rest with two couriers, and a stop can be missed: then the events that were in
the queue are dispatched all the same. -/
theorem not_forall_stopped :
    (¬ ∀ moves, (plainRelay.run moves).step? = none → (plainRelay.run moves).names.length ≤ 1) ∧
      ¬ ∀ before ticket after, (∀ m ∈ after, m ≠ .tell .start) →
        (plainRelay.run (before ++ .tell (.stop ticket) :: after)).step? = none →
          (plainRelay.run before).queue <+:
            (plainRelay.run (before ++ .tell (.stop ticket) :: after)).queue := by
  constructor
  · intro h
    have htwo := h overlapping (by decide)
    exact absurd htwo (by decide)
  · intro h
    have hkept := h arrived 1 missed (by simp [missed]) (by decide)
    exact absurd hkept (by decide)

end PuzzleContest.Relay
