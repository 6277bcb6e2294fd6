import PuzzleContest.Proofs.Toil

/-!
# Couriers on duty get on

Where a broadcast hub has come to rest, what is left is dispatched after the next start, in time: all
events that were left are done with after the time for so many events, as long as nobody stops the relay.

Main definitions:

- `Relay.Paced`: no delivery under way takes longer than one event may.

Main results:

- `Relay.Paced.run`: so it is after any moves.
- `Relay.lost_undergo`: what no stop interrupts loses nothing.
- `Relay.Books.completed_undergoAll`: events that are left at a start are done with in time.
-/

namespace PuzzleContest.Relay

variable {μ : Type} {r s : Relay μ} {published : List (Event μ)}

/-! ## Time -/

/-- No delivery under way takes longer than one event may. -/
def Paced (r : Relay μ) : Prop :=
  ∀ d ∈ r.delivery, d.service.toil (r.patience.getD 0) ≤ r.allowance

theorem Paced.step (hr : r.Paced) (h : Step r s) : s.Paced := by
  have hsame := allowance_step h
  cases h with
  | miss =>
    intro d' hd'
    obtain ⟨d, hd, rfl⟩ := Option.map_eq_some_iff.1 hd'
    exact hr d hd
  | quit =>
    intro d hd
    exact hr d (Option.filter_eq_some_iff.1 hd).1
  | resume | skip | pull => exact hr
  | @finish d hd => cases d.sender <;> exact fun _ hd => absurd hd (by simp [finish, release])
  | @serve d x hd hx =>
    intro d' hd'
    obtain rfl := Option.some.inj hd'
    rw [hsame]
    exact Nat.le_trans (Service.toil_arrange? hx) (hr d hd)
  | @take t turns hd ht =>
    cases t with
    | enroll | withdraw => exact hr
    | deliver sender m =>
      intro d' hd'
      obtain rfl := Option.some.inj hd'
      exact toil_start_le r m
  | ends ending =>
    intro d' hd'
    rw [hsame]
    cases hd : r.delivery with
    | none =>
      rw [ends_of_none hd, hd] at hd'
      exact absurd hd' (by simp)
    | some d =>
      rw [ends_of_some hd] at hd' ⊢
      obtain rfl := Option.some.inj hd'
      exact Nat.le_trans (Service.toil_ends _ _ _ _) (hr d hd)

theorem Paced.elapse (hr : r.Paced) (nanos : Nat) : (r.elapse nanos).Paced := by
  intro d' hd'
  obtain ⟨d, hd, rfl⟩ := Option.map_eq_some_iff.1 hd'
  exact Nat.le_trans (Service.toil_elapse_le _ _ _) (hr d hd)

theorem Paced.act (hr : r.Paced) (order : Order μ) : (r.act order.command).Paced := by
  cases order with
  | start =>
    simp only [Order.command, Relay.act, Relay.start]
    split <;> exact hr
  | stop ticket =>
    simp only [Order.command, Relay.act, Relay.stop]
    split
    · exact hr
    · split <;> exact hr
  | register | unregister | publish | join => exact hr

theorem Paced.run (hr : r.Paced) (moves : List (Move μ)) : (r.run moves).Paced :=
  run_keeps (fun _ order h => h.act order) (fun _ _ => Paced.step) (fun _ n h => h.elapse n) hr moves

theorem Paced.handToil_le (hr : r.Paced) : r.handToil ≤ r.delivering * r.allowance := by
  cases hd : r.delivery with
  | none =>
    rw [handToil_of_none hd]
    exact Nat.zero_le _
  | some d =>
    rw [handToil_of_some hd, delivering_of_some hd, Nat.one_mul]
    exact hr d hd

theorem delivering_le_inFlight (hb : r.Books published) : r.delivering ≤ r.inFlight := by
  rw [hb.inFlight_eq, delivering, parcels, List.length_append]
  cases r.delivery <;> simp

/-- From a start on, the events that are left take at most the time for so many events. -/
theorem Books.toils_start (hb : r.Books published) (hpaced : r.Paced) (huncalled : r.Uncalled) :
    Toils published.length (r.unfinished * r.allowance) r.start := by
  have hsame : r.start.toil published.length = r.toil published.length := by
    unfold Relay.start
    split <;> rfl
  have hhand := hpaced.handToil_le
  have hlength := hb.length_eq
  have hbalance := hb.balance
  have hdelivering := delivering_le_inFlight hb
  have hleft : r.unfinished = r.delivering + (published.length - (r.past + r.delivering)) := by
    simp only [unfinished, past]
    omega
  refine .inr ⟨⟨couriers_start_ne r, huncalled.start⟩, ?_⟩
  rw [hsame, toil, hleft, Nat.add_mul]
  exact Nat.add_le_add_right hhand _

/-- What no stop interrupts loses nothing. -/
theorem lost_undergo (hr : r.Uncalled) {o : Occurrence μ} (hstop : o.isStop = false) :
    (r.undergo o).Uncalled ∧ (r.undergo o).lost = r.lost := by
  apply undergo_induction (P := fun s => s.Uncalled ∧ s.lost = r.lost)
    (fun _ _ hs h => ⟨hs.1.step h, (hs.1.lost_step h).trans hs.2⟩) (fun _ _ hs => hs)
  cases o with
  | tell order =>
    have hne : ∀ ticket, order ≠ .stop ticket := by
      rintro ticket rfl
      simp [Occurrence.isStop] at hstop
    refine ⟨hr.act hne, ?_⟩
    cases order with
    | start =>
      simp only [onset, Order.command, act, start]
      split <;> rfl
    | stop ticket => exact absurd rfl (hne ticket)
    | register | unregister | publish | join => rfl
  | pass | ends => exact ⟨hr, rfl⟩

theorem lost_undergoAll (hr : r.Uncalled) {occurrences : List (Occurrence μ)}
    (hstop : ∀ o ∈ occurrences, o.isStop = false) : (r.undergoAll occurrences).lost = r.lost := by
  induction occurrences generalizing r with
  | nil => rfl
  | cons o occurrences ih =>
    obtain ⟨huncalled, hlost⟩ := lost_undergo hr (hstop o List.mem_cons_self)
    exact (ih huncalled fun o' ho' => hstop o' (List.mem_cons_of_mem _ ho')).trans hlost

theorem resting_undergoAll (hrest : r.Resting) (occurrences : List (Occurrence μ)) :
    (r.undergoAll occurrences).Resting :=
  undergoAll_induction (fun r o _ => resting_undergo r o) hrest occurrences

/-- Unless somebody stops the relay again, every event that is left when it is started at rest is done
with after the time for so many events. -/
theorem Books.completed_undergoAll (hb : r.Books published) (hpaced : r.Paced) (hrest : r.Resting)
    {occurrences : List (Occurrence μ)} (hstop : ∀ o ∈ occurrences, o.isStop = false)
    (htime : r.unfinished * r.allowance ≤ (occurrences.map Occurrence.nanos).sum) :
    r.completed + r.unfinished ≤
      ((r.undergo (.tell .start)).undergoAll occurrences).completed := by
  have hstart : Toils published.length (occurrences.map Occurrence.nanos).sum r.start := by
    refine (hb.toils_start hpaced hrest.uncalled).imp_right fun htoil => ⟨htoil.1, ?_⟩
    exact Nat.le_trans htoil.2 htime
  have hbooks : (r.undergo (.tell .start)).Books published := hb.start.settle
  have hall := (leads_undergoAll (r.undergo (.tell .start)) occurrences).books hbooks
  have hlater := resting_undergoAll (resting_undergo r (.tell .start)) occurrences
  have hended : Toils published.length 0
      ((r.undergo (.tell .start)).undergoAll occurrences) := by
    apply Toils.undergoAll _ hbooks (resting_undergo r _) (Nat.le_refl _) hstop
    rw [Nat.zero_add]
    exact hstart.settle hb.start
  have hpast : published.length ≤
      ((r.undergo (.tell .start)).undergoAll occurrences).past := by
    rcases hended with hdone | ⟨hduty, htoil⟩
    · exact hdone
    · -- Otherwise a listener is waited for, but there is no time left for it.
      apply Nat.not_lt.1
      intro hlt
      obtain ⟨d, e, hd, herrand, hstage, hleft⟩ := hall.exists_errand hlater hduty (by
        rw [List.length_append]
        omega)
      have hless := d.service.toil_elapse
        (((r.undergo (.tell .start)).undergoAll occurrences).patience.getD 0) herrand hstage
        (Nat.le_refl _)
      rw [toil, handToil_of_some hd] at htoil
      omega
  obtain ⟨huncalled, hfirst⟩ := lost_undergo hrest.uncalled (o := .tell .start) rfl
  have hlost : ((r.undergo (.tell .start)).undergoAll occurrences).lost = r.lost :=
    (lost_undergoAll huncalled hstop).trans hfirst
  have hlength := hb.length_eq
  have hbalance := hb.balance
  simp only [past, unfinished] at hpast ⊢
  omega

end PuzzleContest.Relay
