import Mathlib.Logic.Relation
import PuzzleContest.Proofs.Crowd
import PuzzleContest.Proofs.Season

/-!
# Tries from one time to another

Calls that run together, and calls one after another, change the store by deals only.  So whatever holds
of the stores before and after a deal, and goes on from one deal to the next, holds of any two times of a
contest.  One thing that holds is that tries only grow: a try stays under its number and its key, it gets
more attempts, and from its end on it is frozen.

Main results:

- `Store.Leads`: one store comes from the other by deals at times of some kind.
- `Crowd.Sound.leads_run`, `Contest.leads_season`: calls that run together lead from store to store, and
  so do calls one after another.
- `Try.Grows`: what may become of a try.
- `Store.Leads.keeps`: every try of a store is still there in those that it leads to.
- `Contest.keeps_run`: tries only grow.
-/

namespace PuzzleContest

/-! ## Stores that come from each other -/

namespace Store

/-- One deal, at a time of some kind, leads from a store to the other. -/
def Step (P : Moment → Prop) (s s' : Store) : Prop :=
  ∃ key deal tidings, s.Change key deal s' tidings ∧ P deal.moment

/-- Deals at times of some kind lead from a store to the other. -/
def Leads (P : Moment → Prop) : Store → Store → Prop := Relation.ReflTransGen (Step P)

variable {P : Moment → Prop} {s s' : Store}

theorem Leads.sound (h : Leads P s s') (hs : s.Sound) : s'.Sound := by
  induction h with
  | refl => exact hs
  | tail _ hstep ih =>
    rcases hstep with ⟨key, deal, tidings, hchange, -⟩
    exact hchange.sound ih

end Store

/-! ## Crowds -/

namespace Crowd

/-- The reading of the clock that a move brings. -/
def Move.clock? : Move → Option Moment
  | .clock now => some now
  | .turn _ => none

/-- All readings of the clock are of some kind: the present one and those that calls have yet to use. -/
structure Dated (P : Moment → Prop) (w : Crowd) : Prop where
  now : P w.contest.now
  moment : ∀ (i : Nat) (d : Deed) (m : Moment), w.deeds[i]? = some d → d.moment? = some m → P m

variable {P : Moment → Prop} {w : Crowd}

theorem forall_mem_filterMap_cons {α β : Type} {f : α → Option β} {Q : β → Prop} {a : α} {l : List α} :
    (∀ b ∈ (a :: l).filterMap f, Q b) ↔ (∀ b ∈ f a, Q b) ∧ ∀ b ∈ l.filterMap f, Q b := by
  rw [List.filterMap_cons]
  cases f a <;> simp

theorem dated_begin {c : Contest} (hnow : P c.now) (calls : List (Opening ⊕ Submission)) :
    (begin c calls).Dated P where
  now := hnow
  moment := by
    intro i d m hi hm
    simp only [begin, List.getElem?_map, Option.map_eq_some_iff] at hi
    rcases hi with ⟨call, -, rfl⟩
    cases call <;> exact absurd hm (by simp [Deed.begin, Deed.moment?, Opening.Phase.moment?,
      Submission.Phase.moment?])

theorem Sound.leads_step (hw : w.Sound) (hdated : w.Dated P) {move : Move}
    (hmove : ∀ m ∈ move.clock?, P m) :
    w.contest.store.Leads P (w.step move).contest.store ∧ (w.step move).Dated P := by
  cases move with
  | clock now => exact ⟨.refl, hmove now rfl, hdated.moment⟩
  | turn i =>
    cases hi : w.deeds[i]? with
    | none =>
      rw [step_turn_of_none hi]
      exact ⟨.refl, hdated⟩
    | some d =>
      rw [step_turn_of_some hi]
      have hmoment : ∀ (j : Nat) (e : Deed) (m : Moment),
          (w.deeds.set i (d.advance (.caller i) w.contest).1)[j]? = some e → e.moment? = some m →
            P m := by
        intro j e m hj hm
        rcases getElem?_set_cases hj with ⟨-, rfl⟩ | ⟨-, hold⟩
        · rcases Deed.moment?_advance hm with rfl | hm
          · exact hdated.now
          · exact hdated.moment i d m hi hm
        · exact hdated.moment j e m hold hm
      have hstride := (Deed.stride_advance (.caller i) hw.store hw.cascaded (hw.informed i d hi)).1
      refine ⟨?_, ⟨hstride.now_eq ▸ hdated.now, hmoment⟩⟩
      generalize d.advance (.caller i) w.contest = next at hstride
      rcases next with ⟨d', c'⟩
      cases hstride with
      | committed hcall _ _ _ _ _ hdeal hchange _ =>
        exact .single ⟨_, _, _, hchange, hdated.moment i d _ hi hdeal⟩
      | read | entered | admitted | withdrawn | left => exact .refl

theorem Sound.leads_run (hw : w.Sound) (hdated : w.Dated P) (moves : List Move)
    (hmoves : ∀ m ∈ moves.filterMap Move.clock?, P m) :
    w.contest.store.Leads P (w.run moves).contest.store ∧ (w.run moves).Dated P := by
  induction moves generalizing w with
  | nil => exact ⟨.refl, hdated⟩
  | cons move rest ih =>
    rcases forall_mem_filterMap_cons.1 hmoves with ⟨hfirst, hrest⟩
    rcases hw.leads_step hdated hfirst with ⟨hleads, hdated'⟩
    rcases ih (hw.step move) hdated' hrest with ⟨hleads', hdated''⟩
    exact ⟨hleads.trans hleads', hdated''⟩

theorem run_append (w : Crowd) (moves more : List Move) :
    w.run (moves ++ more) = (w.run moves).run more := List.foldl_append

end Crowd

/-! ## Seasons -/

namespace Contest

/-- The reading of the clock that an event brings. -/
def Event.clock? : Event → Option Moment
  | .around x => some x.now
  | _ => none

variable {P : Moment → Prop} {c c' : Contest}

theorem Becomes.leads {what : Option (Try.Key × Deal)} (h : c.Becomes what c') (hnow : P c.now) :
    c.store.Leads P c'.store := by
  cases h with
  | same hagrees =>
    rw [hagrees.store_eq]
    exact .refl
  | changed _ _ _ hmoment _ hchange _ => exact .single ⟨_, _, _, hchange, hmoment ▸ hnow⟩

theorem leads_after (hs : c.store.Sound) (hc : c.store.Cascaded) (hnow : P c.now) {e : Event}
    (he : ∀ m ∈ e.clock?, P m) : c.store.Leads P (c.after e).store ∧ P (c.after e).now := by
  rcases after_cases hs hc e with ⟨x, rfl⟩ | ⟨what, hbecomes, -⟩
  · exact ⟨.refl, he x.now rfl⟩
  · exact ⟨hbecomes.leads hnow, hbecomes.now_eq ▸ hnow⟩

theorem leads_season (hs : c.store.Sound) (hc : c.store.Cascaded) (hnow : P c.now)
    (events : List Event) (hevents : ∀ m ∈ events.filterMap Event.clock?, P m) :
    c.store.Leads P (c.season events).store := by
  induction events generalizing c with
  | nil => exact .refl
  | cons e rest ih =>
    rcases Crowd.forall_mem_filterMap_cons.1 hevents with ⟨hfirst, hrest⟩
    rcases sound_after hs hc e with ⟨hs', hc'⟩
    rcases leads_after hs hc hnow hfirst with ⟨hleads, hnow'⟩
    exact hleads.trans (ih hs' hc' hnow' hrest)

end Contest

/-! ## What becomes of a try -/

namespace Try

variable {ι : Type} {t u v : Try ι} {now : Moment} {answer : String} {correct : Bool}

/-- What may become of a try: it stays the try of its key, with its number, level and start; it gets more
attempts, and without more attempts nothing of it is different; and from its end on it is frozen. -/
structure Grows (t u : Try ι) : Prop where
  id_eq : u.id = t.id
  key_eq : u.key = t.key
  level_eq : u.level = t.level
  start_eq : u.start = t.start
  attempts_le : t.attempts ≤ u.attempts
  same : u.attempts = t.attempts → u = t
  frozen : t.finish ≠ none → u = t

theorem Grows.refl (t : Try ι) : t.Grows t :=
  ⟨rfl, rfl, rfl, rfl, Int.le_refl _, fun _ => rfl, fun _ => rfl⟩

theorem Grows.trans (h : t.Grows u) (h' : u.Grows v) : t.Grows v where
  id_eq := h'.id_eq.trans h.id_eq
  key_eq := h'.key_eq.trans h.key_eq
  level_eq := h'.level_eq.trans h.level_eq
  start_eq := h'.start_eq.trans h.start_eq
  attempts_le := Int.le_trans h.attempts_le h'.attempts_le
  same hattempts := by
    have hsame : u = t := h.same (by have := h.attempts_le; have := h'.attempts_le; omega)
    subst hsame
    exact h'.same hattempts
  frozen hfinish := by
    have hsame : u = t := h.frozen hfinish
    subst hsame
    exact h'.frozen hfinish

/-- A try grows with an answer, which only an unfinished one gets. -/
theorem Answered.grows (h : t.Answered u now answer correct) (hopen : t.isFinished = false) :
    t.Grows u where
  id_eq := h.id_eq
  key_eq := h.key_eq
  level_eq := h.level_eq
  start_eq := h.start_eq
  attempts_le := by
    rw [h.attempts_eq]
    omega
  same hattempts := by
    rw [h.attempts_eq] at hattempts
    omega
  frozen hfinish := by
    have hnone : t.finish = none := by simpa [isFinished] using hopen
    exact absurd hnone hfinish

end Try

namespace Store

variable {P : Moment → Prop} {s s' s'' : Store} {key : Try.Key} {deal : Deal} {tidings : List Tiding}

/-- Every try of a store has grown into the one try of the other that has its number or its key. -/
def Keeps (s s' : Store) : Prop :=
  ∀ t ∈ s.tries, ∃ u ∈ s'.tries, t.Grows u ∧ ∀ v ∈ s'.tries, v.id = t.id ∨ v.key = t.key → v = u

theorem Sound.keeps (hs' : s'.Sound) (h : ∀ t ∈ s.tries, ∃ u ∈ s'.tries, t.Grows u) : s.Keeps s' := by
  intro t ht
  rcases h t ht with ⟨u, hu, hgrows⟩
  refine ⟨u, hu, hgrows, fun v hv hsame => ?_⟩
  rcases hsame with hid | hkey
  · exact hs'.eq_of_id hv hu (hid.trans hgrows.id_eq.symm)
  · exact hs'.eq_of_key hv hu (hkey.trans hgrows.key_eq.symm)

theorem Sound.keeps_refl (hs : s.Sound) : s.Keeps s := hs.keeps fun t ht => ⟨t, ht, .refl t⟩

theorem Keeps.trans (h : s.Keeps s') (h' : s'.Keeps s'') (hs'' : s''.Sound) : s.Keeps s'' := by
  refine hs''.keeps fun t ht => ?_
  rcases h t ht with ⟨u, hu, hgrows, -⟩
  rcases h' u hu with ⟨v, hv, hgrows', -⟩
  exact ⟨v, hv, hgrows.trans hgrows'⟩

theorem Change.keeps (hs : s.Sound) (h : s.Change key deal s' tidings) : s.Keeps s' := by
  refine (h.sound hs).keeps fun t ht => ?_
  have hfind := (find?_eq_some_iff hs).2 ⟨ht, rfl⟩
  cases h.fate hs t.key with
  | untouched hsame =>
    exact ⟨t, mem_of_find? (hsame.trans hfind), .refl t⟩
  | made hnone =>
    rw [hnone] at hfind
    exact absurd hfind (by simp)
  | @answered row u now answer correct hkey hdeal hrow hopen hanswer hfind' htold =>
    rw [hfind, Option.some.injEq] at hrow
    subst hrow
    exact ⟨u, mem_of_find? hfind', (Try.answered_of_eq_some hanswer).grows hopen⟩

/-- Every try of a store is still there in those that it leads to. -/
theorem Leads.keeps (h : Leads P s s') (hs : s.Sound) : s.Keeps s' := by
  induction h with
  | refl => exact hs.keeps_refl
  | tail hleads hstep ih =>
    have hmiddle := Leads.sound hleads hs
    rcases hstep with ⟨key, deal, tidings, hchange, -⟩
    exact ih.trans (hchange.keeps hmiddle) (hchange.sound hmiddle)

end Store

/-- Tries only grow: while calls run together, from then on through any events, and from each of these
events to later ones. -/
theorem Contest.keeps_run (c : Contest) (calls : List (Opening ⊕ Submission))
    (moves more : List Crowd.Move) (before rest : List Event) :
    let crowd := Crowd.begin c calls
    (crowd.run moves).contest.store.Keeps ((crowd.run (moves ++ more)).contest.season rest).store ∧
      ((crowd.run moves).contest.season before).store.Keeps
        ((crowd.run moves).contest.season (before ++ rest)).store := by
  intro crowd
  have hcrowd : ∀ moves, (crowd.run moves).Sound := Crowd.sound_run c calls
  have hdated : ∀ w : Crowd, w.Dated fun _ => True := fun w => ⟨trivial, fun _ _ _ _ _ => trivial⟩
  constructor
  · have htogether := ((hcrowd moves).leads_run (hdated _) more fun _ _ => trivial).1
    have hlater := hcrowd (moves ++ more)
    have hevents := leads_season hlater.store hlater.cascaded trivial rest fun _ _ => trivial
    rw [Crowd.run_append] at hevents ⊢
    exact Store.Leads.keeps (htogether.trans hevents) (hcrowd moves).store
  · rw [season_append]
    have hbefore := sound_season (hcrowd moves).store (hcrowd moves).cascaded before
    have hevents := leads_season hbefore.1 hbefore.2 trivial rest fun _ _ => trivial
    exact Store.Leads.keeps hevents hbefore.1

end PuzzleContest
