import Mathlib.Algebra.GroupWithZero.Nat
import PuzzleContest.Proofs.Rest

/-!
# The time that dispatching takes

Every listener has only so much time for a message, and for closing after it has failed, so that one
event takes at most this time for each listener.  The time that a broadcast hub takes until so many
events are done with is never added to, and time that passes counts, as long as there is a courier and
nobody calls one off.

Main definitions:

- `Relay.allowance`: the time that one event takes at most.
- `Relay.toil`: the time until so many events are done with, at most, from now on.
- `Relay.OnDuty`: there is a courier, and none has been called off.
- `Relay.Toils`: the events are done with, or couriers are on duty and have time enough.

Main results:

- `Relay.Toils.step`: no small step adds to the time needed.
- `Relay.Toils.elapse`, `Relay.Toils.advance`: time that passes counts.
- `Relay.advance_spends`: what is kept while pieces of time are spent is kept while time passes.
- `Relay.Toils.undergoAll`: both, for all that occurs.
-/

namespace PuzzleContest.Relay

variable {μ : Type} {r s : Relay μ}

/-! ## How long a service takes -/

/-- The time that an errand takes at most, with the close that may follow a send. -/
def Errand.toil (e : Errand) : Nat :=
  match e.stage with
  | .sending _ => e.left + closePatience
  | .failed => closePatience
  | .closing => e.left

/-- The time that a service takes at most, given the time that each listener has for a message. -/
def Service.toil (limit : Nat) (sv : Service μ) : Nat :=
  (sv.errand.map Errand.toil).getD 0 + sv.rest.length * (limit + closePatience)

theorem Listener.send_after_le (patience : Option Nat) (l : Listener μ) :
    (l.send patience).after ≤ patience.getD 0 := by
  unfold send
  split
  · exact Nat.le_refl _
  · rename_i limit
    rw [Option.getD_some]
    split
    · exact Nat.zero_le _
    · split
      · exact Nat.zero_le _
      · exact Nat.zero_le _
      · exact Nat.le_refl _
      · split
        · dsimp only
          omega
        · exact Nat.le_refl _

theorem Errand.toil_send_le (patience : Option Nat) (l : Listener μ) :
    (Errand.send patience l).toil ≤ patience.getD 0 + closePatience := by
  simp only [toil, send]
  exact Nat.add_le_add_right (l.send_after_le patience) _

theorem Errand.toil_close?_le (o : Option (Listener μ)) :
    ((o.bind Errand.close?).map Errand.toil).getD 0 ≤ closePatience := by
  cases o with
  | none => exact Nat.zero_le _
  | some l => cases hfarewell : l.farewell <;> simp [close?, hfarewell, toil, Listener.close]

/-- Arranging what comes next does not add to the time that a service takes. -/
theorem Service.toil_arrange? {patience : Option Nat} {a : Audience μ} {sv : Service μ}
    {x : Audience μ × Service μ} (h : sv.arrange? patience a = some x) :
    x.2.toil (patience.getD 0) ≤ sv.toil (patience.getD 0) := by
  unfold Service.arrange? at h
  split at h
  · simp at h
  · rename_i name rest herrand hrest
    obtain rfl := Option.some.inj h
    have hsend : (((a.find? name).map (Errand.send patience)).map Errand.toil).getD 0 ≤
        patience.getD 0 + closePatience := by
      cases a.find? name with
      | none => exact Nat.zero_le _
      | some l => exact Errand.toil_send_le patience l
    simp only [toil, herrand, hrest, Option.map_none, Option.getD_none, List.length_cons, Nat.succ_mul]
    omega
  · rename_i name left herrand
    obtain rfl := Option.some.inj h
    have hclose := Errand.toil_close?_le (a.find? name)
    simp only [toil, herrand, Option.map_some, Option.getD_some, Errand.toil]
    omega
  · simp at h

theorem Service.toil_ends (limit : Nat) (a : Audience μ) (sv : Service μ) (success : Bool) :
    (sv.ends a success).2.toil limit ≤ sv.toil limit := by
  unfold Service.ends
  split
  · rename_i name b left herrand
    split
    · simp [toil, herrand]
    · simp [toil, herrand, Errand.toil]
  · rename_i name left herrand
    simp [toil, herrand]
  · exact Nat.le_refl _

theorem Service.toil_elapse_le (limit : Nat) (sv : Service μ) (nanos : Nat) :
    (sv.elapse nanos).toil limit ≤ sv.toil limit := by
  rcases herrand : sv.errand with _ | ⟨name, _ | _ | _, left⟩
  all_goals
    simp only [toil, elapse, herrand, Option.map_none, Option.map_some, Option.getD_none,
      Option.getD_some, Errand.toil]
    omega

/-- Time that passes while a listener is waited for counts. -/
theorem Service.toil_elapse (limit : Nat) {sv : Service μ} {e : Errand} (herrand : sv.errand = some e)
    (hstage : e.stage ≠ .failed) {nanos : Nat} (hnanos : nanos ≤ e.left) :
    (sv.elapse nanos).toil limit + nanos ≤ sv.toil limit := by
  obtain ⟨name, stage, left⟩ := e
  cases stage with
  | failed => exact absurd rfl hstage
  | sending success =>
    simp only [toil, elapse, herrand, Option.map_some, Option.getD_some, Errand.toil] at hnanos ⊢
    omega
  | closing =>
    simp only [toil, elapse, herrand, Option.map_some, Option.getD_some, Errand.toil] at hnanos ⊢
    omega

/-! ## How long dispatching takes -/

/-- The number of events that are done with, dispatched or lost. -/
def past (r : Relay μ) : Nat := r.completed + r.lost

/-- The number of events in delivery. -/
def delivering (r : Relay μ) : Nat := r.delivery.toList.length

/-- The time that one event takes at most. -/
def allowance (r : Relay μ) : Nat :=
  r.audience.listeners.length * (r.patience.getD 0 + closePatience)

/-- The time that the delivery under way takes at most from now on. -/
def handToil (r : Relay μ) : Nat :=
  match r.delivery with
  | some d => d.service.toil (r.patience.getD 0)
  | none => 0

/-- The time that it takes at most until so many events are done with. -/
def toil (r : Relay μ) (number : Nat) : Nat :=
  r.handToil + (number - (r.past + r.delivering)) * r.allowance

/-- No courier has been called off without having come to it. -/
def Uncalled (r : Relay μ) : Prop := ∀ c ∈ r.couriers, c.called = false

/-- There is a courier, and none has been called off. -/
structure OnDuty (r : Relay μ) : Prop where
  couriers_ne : r.couriers ≠ []
  uncalled : r.Uncalled

/-- Either so many events are done with, or couriers are on duty and the time that it still takes is at
most what is left of a given time. -/
def Toils (number time : Nat) (r : Relay μ) : Prop :=
  number ≤ r.past ∨ r.OnDuty ∧ r.toil number ≤ time

variable {published : List (Event μ)} {number time : Nat}

/-! ## What stays the same -/

theorem Service.length_ends (a : Audience μ) (sv : Service μ) (success : Bool) :
    (sv.ends a success).1.listeners.length = a.listeners.length := by
  unfold Service.ends
  split
  · split
    · exact Audience.length_update a _ _
    · rfl
  · rfl
  · rfl

theorem allowance_ends (r : Relay μ) (ending : Ending) : (r.ends ending).allowance = r.allowance := by
  unfold ends
  split
  · rfl
  · simp only [allowance, Service.length_ends]

theorem allowance_step (h : Step r s) : s.allowance = r.allowance := by
  cases h with
  | miss | quit | resume | skip | pull => rfl
  | @finish d hd => cases d.sender <;> rfl
  | serve hd hx => simp only [allowance, Service.length_arrange? hx]
  | @take t turns hd ht => cases t <;> rfl
  | ends ending => exact allowance_ends r ending

theorem Uncalled.isCalled_eq (hr : r.Uncalled) (name : Nat) : r.isCalled name = false :=
  decide_eq_false fun hmem => absurd (hr _ hmem) (by simp)

theorem couriers_ends (r : Relay μ) (ending : Ending) : (r.ends ending).couriers = r.couriers := by
  unfold ends
  split <;> rfl

/-- Where nobody has been called off, the couriers stay as they are. -/
theorem Uncalled.couriers_step (hr : r.Uncalled) (h : Step r s) : s.couriers = r.couriers := by
  cases h with
  | miss hcalled | quit hcalled => simp [hr.isCalled_eq] at hcalled
  | resume | skip | pull | serve => rfl
  | @finish d hd => cases d.sender <;> rfl
  | @take t turns hd ht => cases t <;> rfl
  | ends ending => exact couriers_ends r ending

theorem Uncalled.step (hr : r.Uncalled) (h : Step r s) : s.Uncalled := by
  unfold Uncalled
  rw [hr.couriers_step h]
  exact hr

theorem OnDuty.step (hr : r.OnDuty) (h : Step r s) : s.OnDuty where
  couriers_ne := (hr.uncalled.couriers_step h).symm ▸ hr.couriers_ne
  uncalled := hr.uncalled.step h

theorem past_ends (r : Relay μ) (ending : Ending) : (r.ends ending).past = r.past := by
  unfold ends
  split <;> rfl

theorem past_le_step (h : Step r s) : r.past ≤ s.past := by
  cases h with
  | miss | resume | pull | serve => exact Nat.le_refl _
  | @quit name =>
    change r.completed + r.lost ≤ r.completed + (r.lost + _)
    omega
  | skip =>
    change r.completed + r.lost ≤ r.completed + 1 + r.lost
    omega
  | @finish d hd =>
    cases d.sender with
    | courier name number =>
      change r.completed + r.lost ≤ r.completed + 1 + r.lost
      omega
    | caller ticket => exact Nat.le_refl _
  | @take t turns hd ht => cases t <;> exact Nat.le_refl _
  | ends ending => exact Nat.le_of_eq (past_ends r ending).symm

theorem Uncalled.lost_step (hr : r.Uncalled) (h : Step r s) : s.lost = r.lost := by
  cases h with
  | miss hcalled | quit hcalled => simp [hr.isCalled_eq] at hcalled
  | resume | skip | pull | serve => rfl
  | @finish d hd => cases d.sender <;> rfl
  | @take t turns hd ht => cases t <;> rfl
  | ends ending =>
    unfold ends
    split <;> rfl

theorem Books.step (hb : r.Books published) (h : Step r s) : s.Books published := by
  cases h with
  | @miss name hcalled hanswered =>
    exact hb.heed? (show r.heed? name = _ by simp [Relay.heed?, hcalled, hanswered])
  | @quit name => exact hb.quit name
  | resume => exact hb.congr rfl
  | @skip name e queue hidle hqueue hmessage =>
    exact hb.pull? (show r.pull? name = _ by simp [Relay.pull?, hidle, hqueue, hmessage])
  | @pull name e queue m hidle hqueue hmessage =>
    exact hb.pull? (show r.pull? name = _ by simp [Relay.pull?, hidle, hqueue, hmessage])
  | finish hd => exact hb.finish hd
  | @serve d x hd hx =>
    refine hb.congr ?_
    simp only [account, names, parcels, hd, Option.map_some, Service.message_arrange? hx]
  | @take t turns hd ht =>
    have hparcels := parcels_take hd ht
    apply hb.congr
    cases t with
    | enroll | withdraw | deliver =>
      simp only [account, Account.mk.injEq]
      exact ⟨rfl, rfl, rfl, rfl, rfl, rfl, hparcels⟩
  | ends ending => exact hb.congr (account_ends r ending)

/-! ## No step adds to the time needed -/

/-- A delivery that sets out takes at most the time for one event. -/
theorem toil_start_le (r : Relay μ) (m : Message μ) :
    (Service.start r.audience m).toil (r.patience.getD 0) ≤ r.allowance := by
  have hlength := r.audience.length_present_le m.competition
  simp only [Service.toil, Service.start, Option.map_none, Option.getD_none, Nat.zero_add, allowance]
  exact Nat.mul_le_mul_right _ hlength

theorem handToil_of_some {d : Delivery μ} (hd : r.delivery = some d) :
    r.handToil = d.service.toil (r.patience.getD 0) := by rw [handToil, hd]

theorem handToil_of_none (hd : r.delivery = none) : r.handToil = 0 := by rw [handToil, hd]

theorem delivering_of_some {d : Delivery μ} (hd : r.delivery = some d) : r.delivering = 1 := by
  simp [delivering, hd]

theorem delivering_of_none (hd : r.delivery = none) : r.delivering = 0 := by simp [delivering, hd]

theorem toil_le_toil (hallowance : s.allowance = r.allowance) (hhand : s.handToil ≤ r.handToil)
    (hpast : r.past + r.delivering ≤ s.past + s.delivering) : s.toil number ≤ r.toil number := by
  unfold toil
  rw [hallowance]
  exact Nat.add_le_add hhand (Nat.mul_le_mul_right _ (Nat.sub_le_sub_left hpast _))

/-- To take the turn is to have the time for one event ahead, which counted before. -/
theorem toil_take_le {sender : Sender} {m : Message μ} {turns : List (Turn μ)}
    (hd : r.delivery = none) (hlt : r.past < number) :
    (Relay.take { r with turns } (.deliver sender m)).toil number ≤ r.toil number := by
  have hstart := toil_start_le r m
  have hallowance : (Relay.take { r with turns } (.deliver sender m)).allowance = r.allowance := rfl
  have hpast : (Relay.take { r with turns } (.deliver sender m)).past = r.past := rfl
  have hsplit : number - (r.past + 0) = number - (r.past + 1) + 1 := by omega
  rw [toil, handToil_of_some rfl, delivering_of_some rfl, hallowance, hpast]
  rw [toil, handToil_of_none hd, delivering_of_none hd, hsplit, Nat.succ_mul, Nat.zero_add]
  exact Nat.le_trans (Nat.add_le_add_right hstart _) (Nat.le_of_eq (Nat.add_comm _ _))

/-- No small step adds to the time that dispatching takes. -/
theorem Uncalled.toil_step (hr : r.Uncalled) (hb : r.Books published) (h : Step r s)
    (hlt : r.past < number) : s.toil number ≤ r.toil number := by
  have hsame := allowance_step h
  cases h with
  | miss hcalled | quit hcalled => simp [hr.isCalled_eq] at hcalled
  | resume | pull => exact Nat.le_refl _
  | skip =>
    refine toil_le_toil hsame (Nat.le_refl _) ?_
    change r.completed + r.lost + r.delivering ≤ r.completed + 1 + r.lost + r.delivering
    omega
  | @finish d hd =>
    obtain ⟨name, k, e, hsender, -⟩ := hb.delivery hd
    rw [hsender] at hsame ⊢
    refine toil_le_toil hsame (Nat.zero_le _) ?_
    rw [delivering_of_some hd]
    change r.completed + r.lost + 1 ≤ r.completed + 1 + r.lost + 0
    omega
  | @serve d x hd hx =>
    refine toil_le_toil hsame ?_ ?_
    · rw [handToil_of_some hd, handToil_of_some rfl]
      exact Service.toil_arrange? hx
    · rw [delivering_of_some hd]
      exact Nat.le_refl _
  | @take t turns hd ht =>
    cases t with
    | enroll | withdraw => exact toil_le_toil hsame (Nat.le_refl _) (Nat.le_refl _)
    | deliver sender m => exact toil_take_le hd hlt
  | ends ending =>
    cases hd : r.delivery with
    | none => exact Nat.le_of_eq (congrArg (toil · number) (ends_of_none hd ending))
    | some d =>
      rw [ends_of_some hd] at hsame ⊢
      refine toil_le_toil hsame ?_ ?_
      · rw [handToil_of_some hd, handToil_of_some rfl]
        exact Service.toil_ends _ _ _ _
      · rw [delivering_of_some hd]
        exact Nat.le_refl _

theorem Toils.step (ht : Toils number time r) (hb : r.Books published) (h : Step r s) :
    Toils number time s := by
  have hpast := past_le_step h
  by_cases hdone : number ≤ r.past
  · exact .inl (by omega)
  · obtain ⟨hduty, htoil⟩ := ht.resolve_left hdone
    exact .inr ⟨hduty.step h, Nat.le_trans (hduty.uncalled.toil_step hb h (by omega)) htoil⟩

theorem Toils.settle (ht : Toils number time r) (hb : r.Books published) :
    Toils number time r.settle :=
  (settle_induction (P := fun r => r.Books published ∧ Toils number time r)
    (fun _ _ hr h => ⟨hr.1.step h, hr.2.step hr.1 h⟩) ⟨hb, ht⟩).2

theorem Books.settle (hb : r.Books published) : r.settle.Books published :=
  settle_induction (P := fun r => r.Books published) (fun _ _ => Books.step) hb

/-! ## Time that passes counts -/

/-- Where nobody has anything in hand, whoever is on duty is idle. -/
theorem OnDuty.exists_isIdle (hr : r.OnDuty) (hfree : r.parcels = []) :
    ∃ name, r.isIdle name = true := by
  obtain ⟨⟨name, called⟩, hc⟩ := List.exists_mem_of_ne_nil _ hr.couriers_ne
  obtain rfl : called = false := hr.uncalled _ hc
  exact ⟨name, decide_eq_true ⟨hc, by simp [hfree]⟩⟩

/-- Unless all events are done with, a relay at rest that has a courier waits for a listener. -/
theorem Books.exists_errand (hb : r.Books published) (hrest : r.Resting) (hduty : r.OnDuty)
    (hlt : r.past < published.length) : ∃ d e, r.delivery = some d ∧ d.service.errand = some e ∧
      e.stage ≠ .failed ∧ 0 < e.left := by
  cases hd : r.delivery with
  | some d =>
    obtain ⟨e, herrand, hstage, hleft⟩ := hrest.held d hd
    exact ⟨d, e, rfl, herrand, hstage, hleft⟩
  | none =>
    have hfree : r.parcels = [] := by simp [parcels, hd, hrest.free hd]
    obtain ⟨name, hidle⟩ := hduty.exists_isIdle hfree
    have hqueue := hrest.idle name hidle
    have hlength := hb.length_eq
    have hbalance := hb.balance
    simp only [inFlight, hfree, List.countP_nil] at hbalance
    simp only [hqueue, List.length_nil] at hlength
    simp only [past] at hlt
    omega

theorem Toils.elapse {nanos : Nat} (ht : Toils number (time + nanos) r) (hb : r.Books published)
    (hrest : r.Resting) (hnumber : number ≤ published.length)
    (hwait : ∀ left, r.wait? = some left → nanos ≤ left) : Toils number time (r.elapse nanos) := by
  by_cases hdone : number ≤ r.past
  · exact .inl hdone
  · obtain ⟨hduty, htoil⟩ := ht.resolve_left hdone
    obtain ⟨d, e, hd, herrand, hstage, -⟩ := hb.exists_errand hrest hduty (by omega)
    have hleft : nanos ≤ e.left := hwait e.left (by simp [wait?, hd, herrand])
    have hless := d.service.toil_elapse (r.patience.getD 0) herrand hstage hleft
    have hafter : (r.elapse nanos).delivery = some { d with service := d.service.elapse nanos } := by
      simp [Relay.elapse, hd]
    refine .inr ⟨⟨hduty.couriers_ne, hduty.uncalled⟩, ?_⟩
    unfold toil at htoil ⊢
    rw [handToil_of_some hd, delivering_of_some hd] at htoil
    rw [handToil_of_some hafter, delivering_of_some hafter]
    change (d.service.elapse nanos).toil (r.patience.getD 0) +
      (number - (r.past + 1)) * r.allowance ≤ time
    omega

/-- Time passes in pieces, each as long as the listener that is waited for still has at most.  What
settling keeps, and what such a piece keeps while it counts, is kept while time passes. -/
theorem advance_spends {P : Nat → Relay μ → Prop} (hsettle : ∀ time r, P time r → P time r.settle)
    (helapse : ∀ time nanos r, r.Resting → (∀ left, r.wait? = some left → nanos ≤ left) →
      P (time + nanos) r → P time (r.elapse nanos))
    {nanos : Nat} (hrest : r.Resting) (hr : P (time + nanos) r) :
    P time (Relay.advance Relay.settle r nanos) := by
  fun_induction Relay.advance Relay.settle r nanos with
  | case1 r nanos hwait =>
    exact hsettle _ _ (helapse _ _ r hrest (fun left hleft => by simp [hwait] at hleft) hr)
  | case2 r nanos left hwait hlate ih =>
    have hsplit : time + nanos = time + (nanos - left) + left := by omega
    rw [hsplit] at hr
    have hlapsed := helapse _ _ r hrest (fun left' hleft => by
      rw [hwait, Option.some.injEq] at hleft
      exact Nat.le_of_eq hleft) hr
    exact ih (resting_of_step? (step?_settle _)) (hsettle _ _ hlapsed)
  | case3 r nanos left hwait hearly =>
    refine hsettle _ _ (helapse _ _ r hrest (fun left' hleft => ?_) hr)
    obtain ⟨d, hd, herrand⟩ := Option.bind_eq_some_iff.1 hwait
    obtain ⟨e, he, rfl⟩ := Option.map_eq_some_iff.1 herrand
    obtain ⟨e', he', -, hpos⟩ := hrest.held d hd
    obtain rfl : e = e' := Option.some.inj (he.symm.trans he')
    rw [hwait, Option.some.injEq] at hleft
    omega

/-- The time that has passed counts, whether or not listeners were done in between. -/
theorem Toils.advance {nanos : Nat} (ht : Toils number (time + nanos) r) (hb : r.Books published)
    (hrest : r.Resting) (hnumber : number ≤ published.length) :
    Toils number time (Relay.advance Relay.settle r nanos) := by
  refine (advance_spends (P := fun time r => r.Books published ∧ Toils number time r) ?_ ?_ hrest
    ⟨hb, ht⟩).2
  · rintro time r ⟨hb, ht⟩
    exact ⟨hb.settle, ht.settle hb⟩
  · rintro time nanos r hrest hwait ⟨hb, ht⟩
    exact ⟨hb.congr (account_elapse r nanos), ht.elapse hb hrest hnumber hwait⟩

theorem Uncalled.start (hr : r.Uncalled) : r.start.Uncalled := by
  unfold Relay.start
  split
  · exact hr
  · intro c hc
    rcases List.mem_append.1 hc with hold | hnew
    · exact hr c hold
    · rw [List.mem_singleton.1 hnew]

theorem couriers_start_ne (r : Relay μ) : r.start.couriers ≠ [] := by
  unfold Relay.start
  split
  · rename_i hrunning
    obtain ⟨name, -, hmem⟩ := running_iff.1 hrunning
    exact List.ne_nil_of_length_pos (by simpa [names] using List.length_pos_of_mem hmem)
  · simp

/-- Nobody's order but a stop calls a courier off. -/
theorem Uncalled.act (hr : r.Uncalled) {order : Order μ} (hne : ∀ ticket, order ≠ .stop ticket) :
    (r.act order.command).Uncalled := by
  cases order with
  | start => exact hr.start
  | stop ticket => exact absurd rfl (hne ticket)
  | register | unregister | publish | join => exact hr

/-- Nobody's order but a stop adds to the time needed for what was published before. -/
theorem Toils.act (ht : Toils number time r) {order : Order μ} (hne : ∀ ticket, order ≠ .stop ticket) :
    Toils number time (r.act order.command) := by
  cases order with
  | start =>
    have hsame : r.start.past = r.past ∧ r.start.toil number = r.toil number := by
      unfold Relay.start
      split <;> exact ⟨rfl, rfl⟩
    refine ht.imp (fun hdone => ?_) fun hduty => ⟨⟨couriers_start_ne r, hduty.1.uncalled.start⟩, ?_⟩
    · exact Nat.le_trans hdone (Nat.le_of_eq hsame.1.symm)
    · exact Nat.le_trans (Nat.le_of_eq hsame.2) hduty.2
  | stop ticket => exact absurd rfl (hne ticket)
  | register | unregister | publish | join =>
    exact ht.imp_right fun hduty => ⟨⟨hduty.1.couriers_ne, hduty.1.uncalled⟩, hduty.2⟩

/-! ## Occurrences -/

/-- The time that passes by an occurrence. -/
def Occurrence.nanos : Occurrence μ → Nat
  | .pass nanos => nanos
  | _ => 0

/-- Whether an occurrence is that somebody stops the relay. -/
def Occurrence.isStop : Occurrence μ → Bool
  | .tell (.stop _) => true
  | _ => false

theorem Books.undergo (hb : r.Books published) (o : Occurrence μ) :
    (r.undergo o).Books (published ++ o.published) := (leads_undergo r o).books hb

theorem Toils.undergo {o : Occurrence μ} (ht : Toils number (time + o.nanos) r)
    (hb : r.Books published) (hrest : r.Resting) (hnumber : number ≤ published.length)
    (hstop : o.isStop = false) : Toils number time (r.undergo o) := by
  cases o with
  | tell order =>
    have hne : ∀ ticket, order ≠ .stop ticket := by
      rintro ticket rfl
      simp [Occurrence.isStop] at hstop
    exact (ht.act hne).settle (hb.act order)
  | pass nanos => exact ht.advance hb hrest hnumber
  | ends ending => exact (ht.step hb (.ends ending)).settle (hb.congr (account_ends r ending))

theorem Toils.undergoAll {occurrences : List (Occurrence μ)}
    (ht : Toils number (time + (occurrences.map Occurrence.nanos).sum) r) (hb : r.Books published)
    (hrest : r.Resting) (hnumber : number ≤ published.length)
    (hstop : ∀ o ∈ occurrences, o.isStop = false) : Toils number time (r.undergoAll occurrences) := by
  induction occurrences generalizing r published with
  | nil => exact ht
  | cons o occurrences ih =>
    have hsplit : time + ((o :: occurrences).map Occurrence.nanos).sum =
        time + (occurrences.map Occurrence.nanos).sum + o.nanos := by
      rw [List.map_cons, List.sum_cons]
      omega
    rw [hsplit] at ht
    have hnext := ht.undergo hb hrest hnumber (hstop o List.mem_cons_self)
    apply ih hnext (hb.undergo o) (resting_undergo r o)
    · rw [List.length_append]
      omega
    · exact fun o' ho' => hstop o' (List.mem_cons_of_mem _ ho')

end PuzzleContest.Relay
