import PuzzleContest.Proofs.Courier

/-!
# What happens to the broadcast hub

From one moment to the next a user gives an order, time passes, or a listener takes the message that is
being sent to it, refuses it, or is done with closing; and then the relay does all it can do.  Each of
these is a list of moves.

Main definitions:

- `Relay.Occurrence`, `Relay.undergo`, `Relay.undergoAll`: what happens, with all that follows at once.
- `Relay.Leads`: one relay comes from another by moves that publish given events.

Main results:

- `Relay.leads_settle`: settling is a list of moves.
- `Relay.leads_undergoAll`: what occurrences bring about, moves bring about.
-/

namespace PuzzleContest.Relay

variable {μ : Type}

/-- What happens between two moments at which a relay has nothing left to do. -/
inductive Occurrence (μ : Type) where
  | tell (order : Order μ)
  | pass (nanos : Nat)
  /-- The send or the close under way ends now, whatever was expected of the listener. -/
  | ends (ending : Ending)

/-- The relay after an occurrence and all that follows from it. -/
def undergo (r : Relay μ) : Occurrence μ → Relay μ
  | .tell order => r.obey order.command
  | .pass nanos => advance settle r nanos
  | .ends ending => (r.ends ending).settle

/-- The relay after a list of occurrences. -/
def undergoAll (r : Relay μ) (occurrences : List (Occurrence μ)) : Relay μ :=
  occurrences.foldl undergo r

/-- What every occurrence keeps, all occurrences keep. -/
theorem undergoAll_induction {P : Relay μ → Prop} (hstep : ∀ r o, P r → P (r.undergo o))
    {r : Relay μ} (hr : P r) (occurrences : List (Occurrence μ)) :
    P (r.undergoAll occurrences) := by
  induction occurrences generalizing r with
  | nil => exact hr
  | cons o occurrences ih => exact ih (hstep r o hr)

/-- The events that are published by an occurrence. -/
def Occurrence.published : Occurrence μ → List (Event μ)
  | .tell order => order.published
  | _ => []

/-- One relay comes from another by moves that publish given events. -/
def Leads (r : Relay μ) (events : List (Event μ)) (s : Relay μ) : Prop :=
  ∃ moves, r.run moves = s ∧ moves.flatMap Move.published = events

variable {r s t : Relay μ} {events more : List (Event μ)}

theorem Leads.refl (r : Relay μ) : Leads r [] r := ⟨[], rfl, rfl⟩

theorem Leads.trans (h₁ : Leads r events s) (h₂ : Leads s more t) : Leads r (events ++ more) t := by
  obtain ⟨moves, rfl, rfl⟩ := h₁
  obtain ⟨moves', rfl, rfl⟩ := h₂
  exact ⟨moves ++ moves', List.foldl_append, List.flatMap_append⟩

/-- What follows without anything being published. -/
theorem Leads.quietly (h₁ : Leads r events s) (h₂ : Leads s [] t) : Leads r events t := by
  have h := h₁.trans h₂
  rwa [List.append_nil] at h

/-- The accounts are kept on the way. -/
theorem Leads.books {published : List (Event μ)} (h : Leads r events s) (hb : r.Books published) :
    s.Books (published ++ events) := by
  obtain ⟨moves, rfl, rfl⟩ := h
  exact hb.run moves

theorem leads_move (r : Relay μ) (m : Move μ) : Leads r m.published (r.move m) :=
  ⟨[m], rfl, List.append_nil _⟩

/-- Every small step that arranges something is a move. -/
theorem leads_arrange? (h : r.arrange? = some s) : Leads r [] s := by
  simp only [arrange?, Option.or_eq_some_iff] at h
  rcases h with (((hheed | ⟨-, hresume⟩) | ⟨-, hpull⟩) | ⟨-, hproceed⟩) | ⟨-, hnext⟩
  · obtain ⟨name, -, hheed⟩ := List.exists_of_findSome?_eq_some hheed
    have hmove : r.move (.heed name) = s := by rw [move, hheed, Option.getD_some]
    exact hmove ▸ leads_move r (.heed name)
  · obtain ⟨stop, -, hresume⟩ := List.exists_of_findSome?_eq_some hresume
    have hmove : r.move (.resume stop) = s := by rw [move, hresume, Option.getD_some]
    exact hmove ▸ leads_move r (.resume stop)
  · obtain ⟨name, -, hpull⟩ := List.exists_of_findSome?_eq_some hpull
    have hmove : r.move (.pull name) = s := by rw [move, hpull, Option.getD_some]
    exact hmove ▸ leads_move r (.pull name)
  · have hmove : r.move .proceed = s := by rw [move, hproceed, Option.getD_some]
    exact hmove ▸ leads_move r .proceed
  · have hmove : r.move .next = s := by rw [move, hnext, Option.getD_some]
    exact hmove ▸ leads_move r .next

/-- A send or a close that needs no more time ends as was expected of the listener. -/
theorem Service.ends_ending (patience : Option Nat) {a : Audience μ} {sv : Service μ}
    {x : Audience μ × Service μ} (h : sv.conclude? a = some x) :
    sv.ends a (sv.ending patience a).success = x ∧ sv.isOut = true := by
  unfold Service.conclude? at h
  split at h
  · rename_i herrand
    exact ⟨by simpa [Service.ends, Service.ending, Ending.success, herrand] using h,
      by simp [Service.isOut, herrand]⟩
  · rename_i name herrand
    have hfails : (sv.ending patience a).success = false := by
      simp only [Service.ending, herrand]
      split <;> rfl
    exact ⟨by simpa [Service.ends, hfails, herrand] using h, by simp [Service.isOut, herrand]⟩
  · rename_i herrand
    exact ⟨by simpa [Service.ends, herrand] using h, by simp [Service.isOut, herrand]⟩
  · simp at h

theorem exists_ends (h : r.conclude? = some s) : ∃ ending, r.ends ending = s := by
  unfold conclude? at h
  split at h
  · simp at h
  · rename_i d hd
    obtain ⟨x, hx, rfl⟩ := Option.map_eq_some_iff.1 h
    obtain ⟨hends, hout⟩ := Service.ends_ending r.patience hx
    exact ⟨d.service.ending r.patience r.audience, by rw [ends_of_some hd, hends, if_pos hout]⟩

theorem leads_step? (h : r.step? = some s) : Leads r [] s := by
  simp only [step?, Option.or_eq_some_iff] at h
  rcases h with harrange | ⟨-, hconclude⟩
  · exact leads_arrange? harrange
  · obtain ⟨ending, rfl⟩ := exists_ends hconclude
    exact leads_move r (.ends ending)

/-- Settling is a list of moves. -/
theorem leads_settle (r : Relay μ) : Leads r [] r.settle := by
  fun_induction settle r with
  | case1 r s h ih => exact (leads_step? h).trans ih
  | case2 r h => exact .refl r

/-- So is the passing of time. -/
theorem leads_advance (r : Relay μ) (nanos : Nat) : Leads r [] (advance settle r nanos) := by
  fun_induction advance settle r nanos with
  | case1 r nanos hwait => exact (leads_move r (.elapse nanos)).trans (leads_settle _)
  | case2 r nanos left hwait hlate ih =>
    exact ((leads_move r (.elapse left)).trans (leads_settle _)).trans ih
  | case3 r nanos left hwait hearly =>
    exact (leads_move r (.elapse nanos)).trans (leads_settle _)

theorem leads_undergo (r : Relay μ) (o : Occurrence μ) : Leads r o.published (r.undergo o) := by
  cases o with
  | tell order => exact (leads_move r (.tell order)).quietly (leads_settle _)
  | pass nanos => exact leads_advance r nanos
  | ends ending => exact (leads_move r (.ends ending)).quietly (leads_settle _)

/-- What occurrences bring about, moves bring about. -/
theorem leads_undergoAll (r : Relay μ) (occurrences : List (Occurrence μ)) :
    Leads r (occurrences.flatMap Occurrence.published) (r.undergoAll occurrences) := by
  induction occurrences generalizing r with
  | nil => exact .refl r
  | cons o occurrences ih => exact (leads_undergo r o).trans (ih (r.undergo o))

end PuzzleContest.Relay
