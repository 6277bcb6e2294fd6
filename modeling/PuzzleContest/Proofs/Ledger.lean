import PuzzleContest.Proofs.Duty

/-!
# What the broadcast hub loses and owes

Small steps and commands never take up an event twice.  Only a courier that was called off, and goes,
loses an event, so that each stop loses one at most.  Without couriers everything that is left stays in
the queue, and whoever waits for the end waits for some event.

Main definitions:

- `Relay.calls`: how many couriers have been called off without having come to it.
- `Relay.Awaited`, `Relay.Awaits`: those who wait for the end, before and after a move.

Main results:

- `Relay.lost_cases`, `Relay.Books.lost_run_le`: how an event is lost, and how many are.
- `Relay.forward_move`: nothing is taken, done with or lost twice.
- `Relay.Books.kept_move`: what a relay without couriers keeps.
- `Relay.joiners_move`: when those who wait for the end are let go.
-/

namespace PuzzleContest.Relay

variable {μ : Type} {r s : Relay μ} {published : List (Event μ)}

/-! ## What is lost -/

/-- Whether a move is that somebody stops the relay. -/
def Move.isStop : Move μ → Bool
  | .tell (.stop _) => true
  | _ => false

/-- The number of couriers that have been called off without having come to it. -/
def calls (r : Relay μ) : Nat := r.couriers.countP (·.called)

/-- A courier has one event in its hands at most. -/
theorem Books.countP_isOf_le (hb : r.Books published) (name : Nat) :
    r.parcels.countP (·.1.isOf name) ≤ 1 := by
  have hcount : r.parcels.countP (·.1.isOf name) = r.holders.count name := by
    rw [holders, List.count, List.countP_filterMap]
    refine List.countP_congr fun p _ => ?_
    cases p.1 <;> simp [Sender.isOf, Sender.name?]
  rw [hcount]
  exact List.nodup_iff_count.1 hb.holders_nodup name

/-- Where couriers have names of their own, one of them is called off. -/
theorem countP_called_map_le_succ {couriers : List Courier}
    (hnodup : (couriers.map (·.name)).Nodup) (name : Nat) :
    (couriers.map fun c => if c.name = name then ⟨name, true⟩ else c).countP (·.called) ≤
      couriers.countP (·.called) + 1 := by
  induction couriers with
  | nil => simp
  | cons c couriers ih =>
    obtain ⟨hnew, hrest⟩ := List.nodup_cons.1 hnodup
    simp only [List.map_cons, List.countP_cons]
    by_cases hname : c.name = name
    · have hothers : couriers.map (fun c => if c.name = name then ⟨name, true⟩ else c) =
          couriers := by
        refine (List.map_congr_left fun c' hc' => if_neg ?_).trans (List.map_id' _)
        intro hsame
        exact hnew (List.mem_map.2 ⟨c', hc', hsame.trans hname.symm⟩)
      rw [hothers]
      split <;> split <;> omega
    · rw [if_neg hname]
      have hle := ih hrest
      omega

/-- What is lost was in the hands of a courier that was called off and has gone. -/
theorem lost_cases (h : Step r s) : s.lost = r.lost ∧ s.calls ≤ r.calls ∨
    ∃ name, r.isCalled name = true ∧ r.isAnswered name = false ∧ s = r.quit name := by
  cases h with
  | @miss name =>
    have hle : (r.couriers.filter (·.name ≠ name)).countP (·.called) ≤ r.calls :=
      List.filter_sublist.countP_le
    exact .inl ⟨rfl, Nat.le_trans (countP_called_map_le r.couriers name) hle⟩
  | @quit name hcalled hwaits => exact .inr ⟨name, hcalled, hwaits, rfl⟩
  | resume | skip | pull | serve => exact .inl ⟨rfl, Nat.le_refl _⟩
  | @finish d hd => cases d.sender <;> exact .inl ⟨rfl, Nat.le_refl _⟩
  | @take t turns hd ht => cases t <;> exact .inl ⟨rfl, Nat.le_refl _⟩
  | ends ending =>
    unfold ends
    split <;> exact .inl ⟨rfl, Nat.le_refl _⟩

/-- A courier that goes loses one event at most, and there is one call fewer. -/
theorem Books.quit_le (hb : r.Books published) {name : Nat} (hcalled : r.isCalled name = true) :
    (r.quit name).lost ≤ r.lost + 1 ∧ (r.quit name).calls + 1 ≤ r.calls :=
  ⟨Nat.add_le_add_left (hb.countP_isOf_le name) _,
    countP_called_filter_lt (of_decide_eq_true hcalled)⟩

/-- A stop calls one courier off at most. -/
theorem Books.calls_stop_le (hb : r.Books published) (ticket : Nat) :
    (r.stop ticket).calls ≤ r.calls + 1 := by
  unfold stop
  split
  · exact Nat.le_succ _
  · split
    · exact countP_called_map_le_succ hb.names_nodup _
    · exact Nat.le_succ _

theorem calls_start (r : Relay μ) : r.start.calls = r.calls := by
  unfold start
  split
  · rfl
  · simp [calls]

theorem Books.calls_act_le (hb : r.Books published) (order : Order μ) :
    (r.act order.command).calls ≤ r.calls + if (Move.tell order).isStop then 1 else 0 := by
  cases order with
  | start => exact Nat.le_of_eq (calls_start r)
  | stop ticket => exact hb.calls_stop_le ticket
  | register | unregister | publish | join => exact Nat.le_refl _

/-- No order has anything to do with what has been taken, dispatched or lost. -/
theorem counts_act (r : Relay μ) (order : Order μ) : (r.act order.command).pulled = r.pulled ∧
    (r.act order.command).completed = r.completed ∧ (r.act order.command).lost = r.lost := by
  cases order with
  | start =>
    simp only [Order.command, act, start]
    split <;> exact ⟨rfl, rfl, rfl⟩
  | stop ticket =>
    simp only [Order.command, act, stop]
    split
    · exact ⟨rfl, rfl, rfl⟩
    · split <;> exact ⟨rfl, rfl, rfl⟩
  | register | unregister | publish | join => exact ⟨rfl, rfl, rfl⟩

theorem Books.lost_move_le (hb : r.Books published) (m : Move μ) :
    (r.move m).lost + (r.move m).calls ≤ r.lost + r.calls + if m.isStop then 1 else 0 := by
  rcases move_cases r m with ⟨order, rfl⟩ | ⟨nanos, rfl⟩ | ⟨hown, hsame | h⟩
  · obtain ⟨-, -, hlost⟩ := counts_act r order
    have hcalls := hb.calls_act_le order
    change (r.act order.command).lost + (r.act order.command).calls ≤ _
    omega
  · exact Nat.le_add_right _ _
  · rw [hsame]
    exact Nat.le_add_right _ _
  · rcases lost_cases h with ⟨hlost, hcalls⟩ | ⟨name, hcalled, -, heq⟩
    · omega
    · obtain ⟨hlost, hcalls⟩ := hb.quit_le hcalled
      rw [heq]
      omega

/-- Each stop loses one event at most. -/
theorem Books.lost_run_le (hb : r.Books published) (moves : List (Move μ)) :
    (r.run moves).lost + (r.run moves).calls ≤ r.lost + r.calls + moves.countP Move.isStop := by
  induction moves generalizing r published with
  | nil => exact Nat.le_refl _
  | cons m moves ih =>
    have hstep := hb.lost_move_le m
    have hrest := ih (hb.move m)
    rw [List.countP_cons]
    change ((r.move m).run moves).lost + ((r.move m).run moves).calls ≤ _
    omega

/-! ## Nothing is taken up again -/

theorem forward_step (h : Step r s) :
    r.pulled ≤ s.pulled ∧ r.completed ≤ s.completed ∧ r.lost ≤ s.lost := by
  cases h with
  | miss | resume | serve => exact ⟨Nat.le_refl _, Nat.le_refl _, Nat.le_refl _⟩
  | quit => exact ⟨Nat.le_refl _, Nat.le_refl _, Nat.le_add_right _ _⟩
  | skip => exact ⟨Nat.le_succ _, Nat.le_succ _, Nat.le_refl _⟩
  | pull => exact ⟨Nat.le_succ _, Nat.le_refl _, Nat.le_refl _⟩
  | @finish d hd =>
    cases d.sender with
    | courier name number => exact ⟨Nat.le_refl _, Nat.le_succ _, Nat.le_refl _⟩
    | caller ticket => exact ⟨Nat.le_refl _, Nat.le_refl _, Nat.le_refl _⟩
  | @take t turns hd ht => cases t <;> exact ⟨Nat.le_refl _, Nat.le_refl _, Nat.le_refl _⟩
  | ends ending =>
    unfold ends
    split <;> exact ⟨Nat.le_refl _, Nat.le_refl _, Nat.le_refl _⟩

theorem forward_move (r : Relay μ) (m : Move μ) : r.pulled ≤ (r.move m).pulled ∧
    r.completed ≤ (r.move m).completed ∧ r.lost ≤ (r.move m).lost := by
  rcases move_cases r m with ⟨order, rfl⟩ | ⟨nanos, rfl⟩ | ⟨hown, hsame | h⟩
  · obtain ⟨hpulled, hcompleted, hlost⟩ := counts_act r order
    exact ⟨Nat.le_of_eq hpulled.symm, Nat.le_of_eq hcompleted.symm, Nat.le_of_eq hlost.symm⟩
  · exact ⟨Nat.le_refl _, Nat.le_refl _, Nat.le_refl _⟩
  · rw [hsame]
    exact ⟨Nat.le_refl _, Nat.le_refl _, Nat.le_refl _⟩
  · exact forward_step h

/-! ## Without couriers -/

/-- Without couriers nothing is under way. -/
theorem Books.parcels_eq_nil (hb : r.Books published) (hnone : r.names = []) : r.parcels = [] := by
  refine List.eq_nil_iff_forall_not_mem.2 fun p hp => ?_
  obtain ⟨name, -, -, -, hname, -⟩ := hb.carried p hp
  simp [hnone] at hname

/-- What is kept where there are no couriers. -/
structure Kept (r s : Relay μ) : Prop where
  names_eq : s.names = []
  queue_eq : s.queue = r.queue
  completed_eq : s.completed = r.completed
  lost_eq : s.lost = r.lost

theorem Books.kept_step (hb : r.Books published) (hnone : r.names = []) (h : Step r s) : Kept r s := by
  have hdelivery := delivery_eq_none (hb.parcels_eq_nil hnone)
  have hcouriers : r.couriers = [] := List.map_eq_nil_iff.1 hnone
  cases h with
  | miss hcalled | quit hcalled => simp [isCalled, hcouriers] at hcalled
  | skip hidle | pull hidle => simp [isIdle, hcouriers] at hidle
  | finish hd | serve hd => simp [hdelivery] at hd
  | resume => exact ⟨hnone, rfl, rfl, rfl⟩
  | @take t turns hd ht => cases t <;> exact ⟨hnone, rfl, rfl, rfl⟩
  | ends ending =>
    rw [ends_of_none hdelivery]
    exact ⟨hnone, rfl, rfl, rfl⟩

theorem Books.kept_settle (hb : r.Books published) (hnone : r.names = []) : Kept r r.settle := by
  refine (settle_induction (P := fun s => s.Books published ∧ Kept r s) (fun r' s' hr h => ?_)
    ⟨hb, hnone, rfl, rfl, rfl⟩).2
  have hkept := hr.1.kept_step hr.2.names_eq h
  exact ⟨hr.1.step h, hkept.names_eq, hkept.queue_eq.trans hr.2.queue_eq,
    hkept.completed_eq.trans hr.2.completed_eq, hkept.lost_eq.trans hr.2.lost_eq⟩

theorem published_of_isStep {m : Move μ} (hown : m.isStep = true) : m.published = [] := by
  cases m with
  | tell order => simp [Move.isStep] at hown
  | _ => rfl

/-- Until somebody starts the relay, the queue is kept, and grows by what is published. -/
theorem Books.kept_move (hb : r.Books published) (hnone : r.names = []) {m : Move μ}
    (hne : m ≠ .tell .start) : (r.move m).names = [] ∧ (r.move m).queue = r.queue ++ m.published ∧
      (r.move m).completed = r.completed ∧ (r.move m).lost = r.lost := by
  have hnil : r.queue = r.queue ++ [] := (List.append_nil _).symm
  rcases move_cases r m with ⟨order, rfl⟩ | ⟨nanos, rfl⟩ | ⟨hown, hsame | h⟩
  · obtain ⟨-, hcounts⟩ := counts_act r order
    cases order with
    | publish e => exact ⟨hnone, rfl, hcounts⟩
    | start => exact absurd rfl hne
    | stop ticket =>
      have hsame := account_stop r ticket
      simp only [account, Account.mk.injEq] at hsame
      exact ⟨hsame.2.2.2.2.1.trans hnone, hsame.1.trans hnil, hcounts⟩
    | register | unregister | join => exact ⟨hnone, hnil, hcounts⟩
  · exact ⟨hnone, hnil, rfl, rfl⟩
  · rw [hsame, published_of_isStep hown]
    exact ⟨hnone, hnil, rfl, rfl⟩
  · obtain ⟨hnames, hqueue, hcompleted, hlost⟩ := hb.kept_step hnone h
    rw [published_of_isStep hown]
    exact ⟨hnames, hqueue.trans hnil, hcompleted, hlost⟩

/-! ## Those who wait for the end -/

/-- Those who begin to wait for the end by a move. -/
def Move.joining : Move μ → List Nat
  | .tell (.join ticket) => [ticket]
  | _ => []

theorem joining_of_isStep {m : Move μ} (hown : m.isStep = true) : m.joining = [] := by
  cases m with
  | tell order => simp [Move.isStep] at hown
  | _ => rfl

/-- Whoever waits for the end waits for some event. -/
def Awaited (r : Relay μ) : Prop := r.joiners ≠ [] → 0 < r.unfinished

/-- Those who wait are as before, or they have been let go and nothing is left. -/
def Awaits (joiners : List Nat) (r : Relay μ) : Prop :=
  r.joiners = joiners ∨ r.joiners = [] ∧ r.unfinished = 0

theorem awaited_release (r : Relay μ) : r.release.Awaited := by
  intro hne
  apply Nat.pos_of_ne_zero
  intro hdone
  have hdone' : r.unfinished = 0 := hdone
  simp [release, hdone'] at hne

theorem awaits_release (r : Relay μ) : Awaits r.joiners r.release := by
  by_cases hdone : r.unfinished = 0
  · exact .inr ⟨by simp [release, hdone], hdone⟩
  · exact .inl (by simp [release, hdone])

theorem unfinished_eq_of_parcels (hqueue : s.queue = r.queue) (hparcels : s.parcels = r.parcels) :
    s.unfinished = r.unfinished := by
  rw [unfinished, unfinished, inFlight, inFlight, hqueue, hparcels]

/-- What a small step has to do with those who wait. -/
theorem joiners_step (hr : r.Awaited) (h : Step r s) : s.Awaited ∧ Awaits r.joiners s := by
  have hkeep : ∀ {s : Relay μ}, s.joiners = r.joiners → s.unfinished = r.unfinished →
      s.Awaited ∧ Awaits r.joiners s := by
    intro s hjoiners hunfinished
    refine ⟨fun hne => ?_, .inl hjoiners⟩
    rw [hunfinished]
    exact hr (hjoiners ▸ hne)
  cases h with
  | @miss name => exact hkeep rfl (unfinished_eq_of_parcels rfl (r.parcels_miss name))
  | quit => exact ⟨awaited_release _, awaits_release _⟩
  | skip => exact ⟨awaited_release _, awaits_release _⟩
  | resume => exact hkeep rfl rfl
  | pull hidle hqueue =>
    refine hkeep rfl ?_
    simp [unfinished, inFlight, parcels, hqueue, Turn.parcel?, Sender.isCourier]
    omega
  | @finish d hd =>
    have hparcels := parcels_finish hd
    revert hparcels
    cases d.sender with
    | courier name number => exact fun _ => ⟨awaited_release _, awaits_release _⟩
    | caller ticket =>
      intro hparcels
      refine hkeep rfl ?_
      rw [unfinished, unfinished, inFlight, inFlight, hparcels, List.countP_cons]
      rfl
  | @serve d x hd hx =>
    refine hkeep rfl (unfinished_eq_of_parcels rfl ?_)
    simp only [parcels, hd, Option.map_some, Service.message_arrange? hx]
  | @take t turns hd ht =>
    have hparcels := parcels_take hd ht
    cases t <;> exact hkeep rfl (unfinished_eq_of_parcels rfl hparcels)
  | ends ending =>
    have hparcels := r.parcels_ends ending
    refine hkeep ?_ (unfinished_eq_of_parcels ?_ hparcels)
    all_goals
      unfold ends
      split <;> rfl

theorem joiners_act (hr : r.Awaited) (order : Order μ) : (r.act order.command).Awaited ∧
    Awaits (r.joiners ++ (Move.tell order).joining) (r.act order.command) := by
  have hkeep : ∀ {s : Relay μ}, s.joiners = r.joiners → r.unfinished ≤ s.unfinished →
      s.Awaited ∧ Awaits (r.joiners ++ []) s := by
    intro s hjoiners hle
    refine ⟨fun hne => Nat.lt_of_lt_of_le (hr (hjoiners ▸ hne)) hle, .inl ?_⟩
    rw [List.append_nil, hjoiners]
  cases order with
  | register ticket competition listener =>
    have hparcels := parcels_request (r := r) (t := .enroll ticket competition listener) rfl
    have hsame := unfinished_eq_of_parcels (r := r) (s := r.request _) rfl hparcels
    exact hkeep rfl (Nat.le_of_eq hsame.symm)
  | unregister ticket competition listener =>
    have hparcels := parcels_request (r := r) (t := .withdraw ticket competition listener) rfl
    have hsame := unfinished_eq_of_parcels (r := r) (s := r.request _) rfl hparcels
    exact hkeep rfl (Nat.le_of_eq hsame.symm)
  | publish e =>
    refine hkeep rfl ?_
    simp only [unfinished, inFlight, Order.command, act, List.length_append]
    exact Nat.add_le_add_right (Nat.le_add_right _ _) _
  | start =>
    simp only [Order.command, act, start]
    split <;> exact hkeep rfl (Nat.le_refl _)
  | stop ticket =>
    simp only [Order.command, act, stop]
    split
    · exact hkeep rfl (Nat.le_refl _)
    · split <;> exact hkeep rfl (Nat.le_refl _)
  | join ticket => exact ⟨awaited_release _, awaits_release _⟩

theorem joiners_move (hr : r.Awaited) (m : Move μ) : (r.move m).Awaited ∧
    Awaits (r.joiners ++ m.joining) (r.move m) := by
  rcases move_cases r m with ⟨order, rfl⟩ | ⟨nanos, rfl⟩ | ⟨hown, hsame | h⟩
  · exact joiners_act hr order
  · have hsame := unfinished_eq_of_parcels (r := r) (s := r.elapse nanos) rfl (r.parcels_elapse nanos)
    refine ⟨fun hne => ?_, .inl (List.append_nil _).symm⟩
    change 0 < (r.elapse nanos).unfinished
    rw [hsame]
    exact hr hne
  · rw [hsame, joining_of_isStep hown, List.append_nil]
    exact ⟨hr, .inl rfl⟩
  · rw [joining_of_isStep hown, List.append_nil]
    exact joiners_step hr h

end PuzzleContest.Relay
