import PuzzleContest.Proofs.Occurrence

/-!
# Broadcast hubs that have nothing left to do

When a relay has settled, the turn at the roster is held only by a delivery that waits for a listener,
nobody waits for a free roster, an idle courier has an empty queue, no courier has been called off
without having come to it, and whoever waits for a courier to go waits for one that is there.  What
leads there is told once, step by step.

Main definitions:

- `Relay.Step`: what one small step can be.
- `Relay.Resting`: what holds when no small step can be done.
- `Relay.Roster.Filled`: no competition without listeners has an entry.

Main results:

- `Relay.step_of_step?`, `Relay.move_cases`: every small step is one of these, and every move that is
  neither an order nor time passing.
- `Relay.undergo_induction`, `Relay.move_induction`: what every step keeps is kept by all that follows
  from an occurrence, and by every move.
- `Relay.resting_undergo`: a relay rests after every occurrence.
- `Relay.filled_run`: no competition without listeners ever has an entry.
-/

namespace PuzzleContest.Relay

variable {μ : Type} {r s : Relay μ}

/-! ## Small steps -/

/-- What one small step can be. -/
inductive Step (r : Relay μ) : Relay μ → Prop where
  | miss {name : Nat} (hcalled : r.isCalled name = true) (hanswered : r.isAnswered name = true) :
    Step r (r.miss name)
  | quit {name : Nat} (hcalled : r.isCalled name = true) (hwaits : r.isAnswered name = false) :
    Step r (r.quit name)
  | resume {stop : Stop} (hstop : stop ∈ r.stops) (hgone : stop.courier ∉ r.names) :
    Step r { r with stops := r.stops.erase stop, known := none }
  /-- A courier is done with an event that cannot be written. -/
  | skip {name : Nat} {e : Event μ} {queue : List (Event μ)} (hidle : r.isIdle name = true)
    (hqueue : r.queue = e :: queue) (hmessage : e.message? = none) :
    Step r (release { r with queue, pulled := r.pulled + 1, completed := r.completed + 1 })
  | pull {name : Nat} {e : Event μ} {queue : List (Event μ)} {m : Message μ}
    (hidle : r.isIdle name = true) (hqueue : r.queue = e :: queue) (hmessage : e.message? = some m) :
    Step r { r with
      queue, pulled := r.pulled + 1, turns := r.turns ++ [.deliver (.courier name r.pulled) m] }
  | finish {d : Delivery μ} (hd : r.delivery = some d) : Step r (r.finish d.sender)
  | serve {d : Delivery μ} {x : Audience μ × Service μ} (hd : r.delivery = some d)
    (hx : d.service.arrange? r.patience r.audience = some x) :
    Step r { r with audience := x.1, delivery := some { d with service := x.2, answered := false } }
  | take {t : Turn μ} {turns : List (Turn μ)} (hd : r.delivery = none) (ht : r.turns = t :: turns) :
    Step r (Relay.take { r with turns } t)
  | ends (ending : Ending) : Step r (r.ends ending)

theorem step_of_heed? {name : Nat} (h : r.heed? name = some s) : Step r s := by
  unfold heed? at h
  split at h
  · rename_i hcalled
    split at h
    · rename_i hanswered
      obtain rfl := Option.some.inj h
      exact .miss hcalled hanswered
    · rename_i hwaits
      obtain rfl := Option.some.inj h
      exact .quit hcalled ((Bool.not_eq_true _).mp hwaits)
  · simp at h

theorem step_of_resume? {stop : Stop} (h : r.resume? stop = some s) : Step r s := by
  unfold resume? at h
  split at h
  · rename_i hstop
    obtain rfl := Option.some.inj h
    exact .resume hstop.1 hstop.2
  · simp at h

theorem step_of_pull? {name : Nat} (h : r.pull? name = some s) : Step r s := by
  unfold pull? at h
  split at h
  · rename_i e queue hidle hqueue
    split at h
    · rename_i hmessage
      obtain rfl := Option.some.inj h
      exact .skip hidle hqueue hmessage
    · rename_i m hmessage
      obtain rfl := Option.some.inj h
      exact .pull hidle hqueue hmessage
  · simp at h

theorem step_of_proceed? (h : r.proceed? = some s) : Step r s := by
  unfold proceed? at h
  split at h
  · simp at h
  · rename_i d hd
    split at h
    · simp at h
    split at h
    · obtain rfl := Option.some.inj h
      exact .finish hd
    · obtain ⟨x, hx, rfl⟩ := Option.map_eq_some_iff.1 h
      exact .serve hd hx

theorem step_of_nextTurn? (h : r.nextTurn? = some s) : Step r s := by
  unfold nextTurn? at h
  split at h
  · rename_i t turns hd ht
    split at h
    · simp at h
    obtain rfl := Option.some.inj h
    exact .take hd ht
  · simp at h

theorem step_of_step? (h : r.step? = some s) : Step r s := by
  simp only [step?, arrange?, Option.or_eq_some_iff] at h
  rcases h with
    ((((hheed | ⟨-, hresume⟩) | ⟨-, hpull⟩) | ⟨-, hproceed⟩) | ⟨-, hnext⟩) | ⟨-, hconclude⟩
  · obtain ⟨name, -, hheed⟩ := List.exists_of_findSome?_eq_some hheed
    exact step_of_heed? hheed
  · obtain ⟨stop, -, hresume⟩ := List.exists_of_findSome?_eq_some hresume
    exact step_of_resume? hresume
  · obtain ⟨name, -, hpull⟩ := List.exists_of_findSome?_eq_some hpull
    exact step_of_pull? hpull
  · exact step_of_proceed? hproceed
  · exact step_of_nextTurn? hnext
  · obtain ⟨ending, rfl⟩ := exists_ends hconclude
    exact .ends ending

/-- Whether a move is one that the relay or a listener makes. -/
def Move.isStep : Move μ → Bool
  | .tell _ | .elapse _ => false
  | _ => true

/-- A move is an order, or time passes, or it is a small step, if it can be made. -/
theorem move_cases (r : Relay μ) (m : Move μ) : (∃ order, m = .tell order) ∨
    (∃ nanos, m = .elapse nanos) ∨ m.isStep = true ∧ (r.move m = r ∨ Step r (r.move m)) := by
  have hgetD : ∀ o : Option (Relay μ), (∀ s, o = some s → Step r s) →
      o.getD r = r ∨ Step r (o.getD r) := by
    intro o ho
    cases o with
    | none => exact .inl rfl
    | some s => exact .inr (ho s rfl)
  cases m with
  | tell order => exact .inl ⟨order, rfl⟩
  | elapse nanos => exact .inr (.inl ⟨nanos, rfl⟩)
  | heed name => exact .inr (.inr ⟨rfl, hgetD _ fun _ => step_of_heed?⟩)
  | resume stop => exact .inr (.inr ⟨rfl, hgetD _ fun _ => step_of_resume?⟩)
  | pull name => exact .inr (.inr ⟨rfl, hgetD _ fun _ => step_of_pull?⟩)
  | proceed => exact .inr (.inr ⟨rfl, hgetD _ fun _ => step_of_proceed?⟩)
  | next => exact .inr (.inr ⟨rfl, hgetD _ fun _ => step_of_nextTurn?⟩)
  | ends ending => exact .inr (.inr ⟨rfl, .inr (.ends ending)⟩)

/-- What every order, every small step and the passing of time keep, every move keeps. -/
theorem move_induction {P : Relay μ → Prop}
    (hact : ∀ r (order : Order μ), P r → P (r.act order.command))
    (hstep : ∀ r s, P r → Step r s → P s) (helapse : ∀ r nanos, P r → P (r.elapse nanos))
    (hr : P r) (m : Move μ) : P (r.move m) := by
  rcases move_cases r m with ⟨order, rfl⟩ | ⟨nanos, rfl⟩ | ⟨-, hsame | h⟩
  · exact hact r order hr
  · exact helapse r nanos hr
  · exact hsame.symm ▸ hr
  · exact hstep r _ hr h

/-- What every order, every small step and the passing of time keep, all moves keep. -/
theorem run_keeps {P : Relay μ → Prop}
    (hact : ∀ r (order : Order μ), P r → P (r.act order.command))
    (hstep : ∀ r s, P r → Step r s → P s) (helapse : ∀ r nanos, P r → P (r.elapse nanos))
    (hr : P r) (moves : List (Move μ)) : P (r.run moves) := by
  induction moves generalizing r with
  | nil => exact hr
  | cons m moves ih => exact ih (move_induction hact hstep helapse hr m)

theorem settle_eq_of_step? (h : r.step? = some s) : r.settle = s.settle := by
  rw [settle]
  split
  · rename_i s' hs'
    rw [Option.some.inj (hs'.symm.trans h)]
  · rename_i hnone
    simp [hnone] at h

/-- What every small step that can be done keeps, settling keeps. -/
theorem settle_keeps {P : Relay μ → Prop} (hstep : ∀ r s, P r → r.step? = some s → P s)
    (hr : P r) : P r.settle := by
  fun_induction settle r with
  | case1 r s h ih => exact ih (hstep r s hr h)
  | case2 r h => exact hr

/-- What every small step keeps, settling keeps. -/
theorem settle_induction {P : Relay μ → Prop} (hstep : ∀ r s, P r → Step r s → P s)
    (hr : P r) : P r.settle :=
  settle_keeps (fun r s hr h => hstep r s hr (step_of_step? h)) hr

/-- What every small step keeps, and the passing of time too, is kept while time passes. -/
theorem advance_induction {P : Relay μ → Prop} (hstep : ∀ r s, P r → Step r s → P s)
    (helapse : ∀ r nanos, P r → P (r.elapse nanos)) (hr : P r) (nanos : Nat) :
    P (advance settle r nanos) := by
  fun_induction advance settle r nanos with
  | case1 r nanos hwait => exact settle_induction hstep (helapse r nanos hr)
  | case2 r nanos left hwait hlate ih => exact ih (settle_induction hstep (helapse r left hr))
  | case3 r nanos left hwait hearly => exact settle_induction hstep (helapse r nanos hr)

/-- The relay right after an occurrence, before anything follows from it. -/
def onset (r : Relay μ) : Occurrence μ → Relay μ
  | .tell order => r.act order.command
  | _ => r

/-- What holds right after an occurrence, and is kept by every small step and while time passes, holds
when everything has followed. -/
theorem undergo_induction {P : Relay μ → Prop} (hstep : ∀ r s, P r → Step r s → P s)
    (helapse : ∀ r nanos, P r → P (r.elapse nanos)) {o : Occurrence μ} (hr : P (r.onset o)) :
    P (r.undergo o) := by
  cases o with
  | tell order => exact settle_induction hstep hr
  | pass nanos => exact advance_induction hstep helapse hr nanos
  | ends ending => exact settle_induction hstep (hstep r _ hr (.ends ending))

/-! ## Rest -/

theorem step?_settle (r : Relay μ) : r.settle.step? = none := by
  fun_induction settle r with
  | case1 r s h ih => exact ih
  | case2 r h => exact h

theorem step?_advance (r : Relay μ) (nanos : Nat) : (advance settle r nanos).step? = none := by
  fun_induction advance settle r nanos with
  | case1 r nanos hwait => exact step?_settle _
  | case2 r nanos left hwait hlate ih => exact ih
  | case3 r nanos left hwait hearly => exact step?_settle _

/-- What holds when no small step can be done. -/
structure Resting (r : Relay μ) : Prop where
  /-- The turn at the roster is held by a delivery whose send or close is under way. -/
  held : ∀ d ∈ r.delivery, ∃ e, d.service.errand = some e ∧ e.stage ≠ .failed ∧ 0 < e.left
  /-- Nobody waits for a turn that is free. -/
  free : r.delivery = none → r.turns = []
  /-- An idle courier has nothing to take. -/
  idle : ∀ name, r.isIdle name = true → r.queue = []
  /-- Whoever was called off has come to it. -/
  uncalled : ∀ c ∈ r.couriers, c.called = false
  /-- Whoever waits for a courier to go waits for one that is there. -/
  stopping : ∀ stop ∈ r.stops, stop.courier ∈ r.names

/-- A service that can do nothing waits for a listener. -/
theorem Service.exists_errand {patience : Option Nat} {a : Audience μ} {sv : Service μ}
    (hover : sv.isOver = false) (harrange : sv.arrange? patience a = none)
    (hconclude : sv.conclude? a = none) :
    ∃ e, sv.errand = some e ∧ e.stage ≠ .failed ∧ 0 < e.left := by
  rcases herrand : sv.errand with _ | ⟨name, success | _ | _, left⟩
  · cases hrest : sv.rest with
    | nil => simp [Service.isOver, herrand, hrest] at hover
    | cons name rest => simp [Service.arrange?, herrand, hrest] at harrange
  · refine ⟨_, rfl, by simp, Nat.pos_of_ne_zero ?_⟩
    rintro rfl
    cases success <;> simp [Service.conclude?, herrand] at hconclude
  · simp [Service.arrange?, herrand] at harrange
  · refine ⟨_, rfl, by simp, Nat.pos_of_ne_zero ?_⟩
    rintro rfl
    simp [Service.conclude?, herrand] at hconclude

/-- Where nobody has been called off, no delivery must wait for it. -/
theorem isHalted_of_uncalled (huncalled : ∀ c ∈ r.couriers, c.called = false) (sender : Sender) :
    r.isHalted sender = false := by
  cases sender with
  | caller ticket => rfl
  | courier name number =>
    rw [isHalted, isCalled, decide_eq_false_iff_not]
    intro hmem
    exact absurd (huncalled _ hmem) (by simp)

theorem mem_names {c : Courier} (hc : c ∈ r.couriers) : c.name ∈ r.names := List.mem_map_of_mem hc

theorem resting_of_step? (h : r.step? = none) : r.Resting := by
  simp only [step?, arrange?, Option.or_eq_none_iff, List.findSome?_eq_none_iff] at h
  obtain ⟨⟨⟨⟨⟨hheed, hresume⟩, hpull⟩, hproceed⟩, hnext⟩, hconclude⟩ := h
  have huncalled : ∀ c ∈ r.couriers, c.called = false := by
    rintro ⟨name, called⟩ hc
    cases called with
    | false => rfl
    | true =>
      have hcalled : r.isCalled name = true := decide_eq_true hc
      simpa [heed?, hcalled] using hheed name (mem_names hc)
  refine ⟨?_, ?_, ?_, huncalled, ?_⟩
  · intro d hd
    have hd' : r.delivery = some d := hd
    simp only [proceed?, hd', isHalted_of_uncalled huncalled, Bool.false_eq_true, if_false] at hproceed
    split at hproceed
    · simp at hproceed
    · rename_i hover
      simp only [conclude?, hd', Option.map_eq_none_iff] at hconclude
      exact Service.exists_errand (by simpa using hover) (Option.map_eq_none_iff.1 hproceed) hconclude
  · intro hd
    cases ht : r.turns with
    | nil => rfl
    | cons t turns =>
      have hfree : t.parcel?.any (r.isHalted ·.1) = false := by
        simp [isHalted_of_uncalled huncalled]
      simp [nextTurn?, hd, ht, hfree] at hnext
  · intro name hidle
    cases hqueue : r.queue with
    | nil => rfl
    | cons e queue =>
      have hnone := hpull name (mem_names_of_isIdle hidle)
      simp only [pull?, hidle, hqueue] at hnone
      split at hnone <;> simp at hnone
  · intro stop hstop
    refine Decidable.byContradiction fun hgone => ?_
    simpa [resume?, hstop, hgone] using hresume stop hstop

/-- A relay rests after every occurrence. -/
theorem resting_undergo (r : Relay μ) (o : Occurrence μ) : (r.undergo o).Resting := by
  apply resting_of_step?
  cases o with
  | tell order => exact step?_settle _
  | pass nanos => exact step?_advance r nanos
  | ends ending => exact step?_settle _

/-! ## The roster -/

/-- No competition without listeners has an entry. -/
def Roster.Filled (roster : Roster) : Prop := ∀ e ∈ roster.entries, e.2 ≠ []

variable {roster : Roster}

theorem Roster.addName_ne_nil (name : String) (names : List String) : addName name names ≠ [] := by
  unfold addName
  split
  · rename_i hmem
    exact List.ne_nil_of_mem hmem
  · simp

theorem Roster.Filled.add (hr : roster.Filled) (competition name : String) :
    (roster.add competition name).Filled := by
  have haddTo : ∀ entries : List (String × List String), (∀ e ∈ entries, e.2 ≠ []) →
      ∀ e ∈ addTo competition name entries, e.2 ≠ [] := by
    intro entries hentries
    induction entries with
    | nil => simp [addTo]
    | cons e rest ih =>
      have hrest := ih fun e' he' => hentries e' (List.mem_cons_of_mem _ he')
      intro e' he'
      rw [addTo] at he'
      split at he'
      · rcases List.mem_cons.1 he' with rfl | hmem
        · exact addName_ne_nil name e.2
        · exact hentries e' (List.mem_cons_of_mem _ hmem)
      · rcases List.mem_cons.1 he' with rfl | hmem
        · exact hentries e' List.mem_cons_self
        · exact hrest e' hmem
  exact haddTo roster.entries hr

theorem Roster.Filled.discard (hr : roster.Filled) (competition name : String) :
    (roster.discard competition name).Filled := by
  intro e he
  obtain ⟨e', he', hremainder⟩ := List.mem_filterMap.1 he
  unfold remainder? at hremainder
  split at hremainder
  · split at hremainder
    · simp at hremainder
    · rename_i hnames
      obtain rfl := Option.some.inj hremainder
      exact hnames
  · obtain rfl := Option.some.inj hremainder
    exact hr e' he'

theorem Service.filled_arrange? {patience : Option Nat} {a : Audience μ} {sv : Service μ}
    {x : Audience μ × Service μ} (ha : a.roster.Filled) (h : sv.arrange? patience a = some x) :
    x.1.roster.Filled := by
  unfold Service.arrange? at h
  split at h
  · simp at h
  · obtain rfl := Option.some.inj h
    exact ha
  · obtain rfl := Option.some.inj h
    exact ha.discard _ _
  · simp at h

theorem Service.roster_ends (a : Audience μ) (sv : Service μ) (success : Bool) :
    (sv.ends a success).1.roster = a.roster := by
  unfold Service.ends
  split
  · split <;> rfl
  · rfl
  · rfl

theorem filled_step (hr : r.audience.roster.Filled) (h : Step r s) : s.audience.roster.Filled := by
  cases h with
  | miss | quit | resume | skip | pull => exact hr
  | @finish d hd => cases d.sender <;> exact hr
  | serve hd hx => exact Service.filled_arrange? hr hx
  | @take t turns hd ht =>
    cases t with
    | enroll ticket competition listener => exact hr.add competition listener
    | withdraw ticket competition listener => exact hr.discard competition listener
    | deliver sender m => exact hr
  | ends success =>
    unfold ends
    split
    · exact hr
    · rename_i d hd
      rw [Service.roster_ends]
      exact hr

theorem filled_act (hr : r.audience.roster.Filled) (order : Order μ) :
    (r.act order.command).audience.roster.Filled := by
  cases order with
  | start =>
    simp only [Order.command, act, start]
    split <;> exact hr
  | stop ticket =>
    simp only [Order.command, act, stop]
    split
    · exact hr
    · split <;> exact hr
  | register | unregister | publish | join => exact hr

/-- No competition without listeners ever has an entry. -/
theorem filled_run (hr : r.audience.roster.Filled) (moves : List (Move μ)) :
    (r.run moves).audience.roster.Filled :=
  run_keeps (P := fun r => r.audience.roster.Filled) (fun _ order h => filled_act h order)
    (fun _ _ => filled_step) (fun _ _ h => h) hr moves

end PuzzleContest.Relay
