import PuzzleContest.Proofs.Deed

/-!
# Openings on a database that waits in vain

An opening asks the database under the lock of its key, where the database may wait for a lock of its
own in vain, and reads without the lock, where nothing breaks.  Whatever other processes do between its
steps, it comes to a try that it has seen, or it fails because its last read has found none.

Main results:

- `Schedule.Bearable`: what the database may do in a step.
- `Action.Brings`: an action has a given result unless the database waits in vain.
- `Opening.Phase.Fair`: what an opening has come to is what it has seen.
- `Opening.Phase.Fair.advance`: every step keeps it so.
-/

namespace PuzzleContest

/-! ## What the database may do -/

/-- The faults to come. -/
def Schedule.faults (x : Schedule) : List Fault := (x.sessions ++ x.finds ++ x.commits).filterMap id

/-- Nothing is overlooked, and nothing breaks but where it may, by a wait for a lock in vain. -/
def Schedule.Bearable (may : Prop) (x : Schedule) : Prop :=
  x.hidden = [] ∧ ∀ fault ∈ x.faults, may ∧ fault.failure = .refused .lockTimeout

instance (may : Prop) [Decidable may] (x : Schedule) : Decidable (x.Bearable may) :=
  inferInstanceAs (Decidable
    (x.hidden = [] ∧ ∀ fault ∈ x.faults, may ∧ fault.failure = .refused .lockTimeout))

namespace Action

variable {α β : Type} {may : Prop}

/-- An action has a given result, unless the database waits in vain where it may. -/
def Brings (may : Prop) (x : Action α) (a : α) : Prop :=
  ∀ c, c.schedule.Bearable may →
    ((x c).1 = .ok a ∨ may ∧ (x c).1 = .error (.refused .lockTimeout)) ∧
      (x c).2.schedule.Bearable may

theorem brings_pure (a : α) : Brings may (pure a) a := fun _ h => ⟨.inl rfl, h⟩

theorem Brings.bind {x : Action α} {f : α → Action β} {a : α} {b : β} (hx : Brings may x a)
    (hf : Brings may (f a) b) : Brings may (x >>= f) b := by
  intro c hc
  rcases hx c hc with ⟨hresult, hrest⟩
  rw [bind_apply]
  cases hxc : x c with
  | mk result c' =>
    rw [hxc] at hresult hrest
    rcases hresult with hok | ⟨hmay, herror⟩
    · change result = .ok a at hok
      subst hok
      exact hf c' hrest
    · change result = .error (.refused .lockTimeout) at herror
      subst herror
      exact ⟨.inr ⟨hmay, rfl⟩, hrest⟩

end Action

namespace Schedule

variable {may : Prop} {x x' : Schedule}

/-- A fault to come waits for one of the occasions. -/
theorem mem_faults {fault : Fault} :
    fault ∈ x.faults ↔ some fault ∈ x.sessions ∨ some fault ∈ x.finds ∨ some fault ∈ x.commits := by
  simp [faults]

/-- On an occasion the database works or waits in vain where it may, and what is left is bearable. -/
theorem Bearable.meet (h : x.Bearable may) {head : Option Fault} (hhidden : x'.hidden = x.hidden)
    (hhead : ∀ fault ∈ head, fault ∈ x.faults) (hrest : ∀ fault ∈ x'.faults, fault ∈ x.faults) :
    (Contest.meet head = .ok () ∨ may ∧ Contest.meet head = .error (.refused .lockTimeout)) ∧
      x'.Bearable may := by
  refine ⟨?_, hhidden.trans h.1, fun fault hfault => h.2 fault (hrest fault hfault)⟩
  cases head with
  | none => exact .inl rfl
  | some fault =>
    rcases h.2 fault (hhead fault rfl) with ⟨hmay, hfailure⟩
    exact .inr ⟨hmay, congrArg Except.error hfailure⟩

end Schedule

open PuzzleContest.Action

namespace Contest

variable {may : Prop}

theorem brings_session : Brings may session () := by
  intro c h
  unfold session
  cases hsessions : c.schedule.sessions with
  | nil => exact ⟨.inl rfl, h⟩
  | cons head rest =>
    refine h.meet rfl (fun fault hfault => ?_) fun fault hfault => ?_
    · rw [Schedule.mem_faults, hsessions]
      exact .inl (hfault ▸ List.mem_cons_self)
    · rw [Schedule.mem_faults] at hfault ⊢
      rw [hsessions]
      exact hfault.imp_left (List.mem_cons_of_mem head)

theorem brings_findFault : Brings may findFault () := by
  intro c h
  unfold findFault
  cases hfinds : c.schedule.finds with
  | nil => exact ⟨.inl rfl, h⟩
  | cons head rest =>
    refine h.meet rfl (fun fault hfault => ?_) fun fault hfault => ?_
    · rw [Schedule.mem_faults, hfinds]
      exact .inr (.inl (hfault ▸ List.mem_cons_self))
    · rw [Schedule.mem_faults] at hfault ⊢
      rw [hfinds]
      exact hfault.imp_right (Or.imp_left (List.mem_cons_of_mem head))

theorem brings_commitFault : Brings may commitFault () := by
  intro c h
  unfold commitFault
  cases hcommits : c.schedule.commits with
  | nil => exact ⟨.inl rfl, h⟩
  | cons head rest =>
    refine h.meet rfl (fun fault hfault => ?_) fun fault hfault => ?_
    · rw [Schedule.mem_faults, hcommits]
      exact .inr (.inr (hfault ▸ List.mem_cons_self))
    · rw [Schedule.mem_faults] at hfault ⊢
      rw [hcommits]
      exact hfault.imp_right (Or.imp_right (List.mem_cons_of_mem head))

theorem brings_overlooks : Brings may overlooks false := by
  intro c h
  unfold overlooks
  rw [h.1]
  exact ⟨.inl rfl, h⟩

theorem brings_glance : Brings may glance false := brings_findFault.bind brings_overlooks

theorem brings_seek (missing : Refusal) : Brings may (seek missing) () :=
  brings_session.bind (brings_glance.bind (brings_pure ()))

end Contest

namespace Opening

variable {may : Prop} {o : Opening} {c : Contest}

theorem brings_look : Brings may look false := Contest.brings_session.bind Contest.brings_glance

/-- A failure that leads to a last read, or tells that no try can have the index of the puzzle. -/
def Excused (o : Opening) (e : Failure) : Prop :=
  e.isConflict = true ∨ e = .integerTooWide ∧ Store.holds o.index = false

/-- The commit of a new try fails for one of these two reasons. -/
theorem excused_of_insert {start : Moment} {e : Failure} (hc : c.schedule.Bearable may)
    (h : (o.insert start c).1 = .error e) : o.Excused e := by
  rw [insert_apply, andThen] at h
  rcases Contest.brings_commitFault c hc with ⟨hresult, -⟩
  cases hfault : Contest.commitFault c with
  | mk result c' =>
    rw [hfault] at h hresult
    rcases hresult with hok | ⟨-, herror⟩
    · change result = .ok () at hok
      subst hok
      by_cases hindex : Store.holds o.index = true
      · cases hadd : c'.store.add? o.key o.level start with
        | none => simp [andThen, Contest.checkInteger, hindex, pure_apply, hadd] at h
        | some x => simp [andThen, Contest.checkInteger, hindex, pure_apply, hadd] at h
      · have he : Failure.integerTooWide = e := by
          simpa [andThen, Contest.checkInteger, hindex, fail] using h
        exact .inr ⟨he.symm, by simpa using hindex⟩
    · change result = .error (.refused .lockTimeout) at herror
      subst herror
      have he : Failure.refused .lockTimeout = e := by simpa using h
      exact .inl (he ▸ rfl)

namespace Phase

variable {Seen Seen' : Try Nat → Prop} {Missed Missed' : Prop} {phase : Phase} {me : Holder}

/-- What an opening has come to is a try that it has seen, or an excuse; and at its end it has failed
because it has missed the try at last, or because no try can have the index of the puzzle. -/
def Fair (o : Opening) (Seen : Try Nat → Prop) (Missed : Prop) : Phase → Prop
  | closing _ (.ok found) | leaving _ (.ok found) => Seen found.entry
  | closing _ (.error e) | leaving _ (.error e) => o.Excused e
  | done (.ok t) => Seen t
  | done (.error e) =>
    e = .refused .conflict ∧ Missed ∨ e = .integerTooWide ∧ Store.holds o.index = false
  | _ => True

theorem Fair.mono (h : phase.Fair o Seen Missed) (hseen : ∀ t, Seen t → Seen' t)
    (hmissed : Missed → Missed') : phase.Fair o Seen' Missed' := by
  cases phase with
  | closing q result | leaving q result =>
    cases result with
    | ok found => exact hseen found.entry h
    | error e => exact h
  | done result =>
    cases result with
    | ok t => exact hseen t h
    | error e => exact Or.imp_left (And.imp_right hmissed) h
  | arriving | inquiring | approaching | greeting | queueing | waiting | looking | reading |
    inserting | returning | rereading | recovering | salvaging => trivial

/-- After the commit an opening has come to the try that it made, or it has an excuse. -/
theorem fair_afterInsert {start : Moment} {q : Player} (hc : c.schedule.Bearable may)
    (hseen : ∀ t, (afterInsert q (o.insert start c)).2.store.find? o.key = some t → Seen t) :
    (afterInsert q (o.insert start c)).1.Fair o Seen Missed := by
  rcases o.insert_cases start c with
    ⟨e, schedule, hresult⟩ | ⟨schedule, hresult⟩ | ⟨t, store, schedule, -, hadd, hresult⟩
  · have hexcused : o.Excused e := excused_of_insert hc (congrArg Prod.fst hresult)
    rw [hresult]
    by_cases hduplicate : e = .duplicate
    · subst hduplicate
      trivial
    · have hclosing : afterInsert q (.error e, { c with schedule := schedule }) =
          (.closing q (.error e), { c with schedule := schedule }) := by
        cases e <;> first | rfl | exact absurd rfl hduplicate
      rw [hclosing]
      exact hexcused
  · rw [hresult]
    trivial
  · rw [hresult] at hseen ⊢
    have hfind : store.find? o.key = some t := by rw [Store.find?_add hadd, if_pos rfl]
    exact hseen t hfind

/-- Out of the lock an opening goes to its end, or to a last read. -/
theorem fair_afterLeave {q : Player} {result : Except Failure Found}
    (h : (leaving q result).Fair o Seen Missed) : (afterLeave q c result).1.Fair o Seen Missed := by
  cases result with
  | ok found => exact h
  | error e =>
    unfold afterLeave
    rcases h with hconflict | hwide
    · simp only [hconflict, if_true]
      trivial
    · rw [hwide.1]
      exact .inr ⟨rfl, hwide.2⟩

/-- An opening that looks for the try under the lock goes on, or it has an excuse. -/
theorem fair_looking {q : Player} (hc : c.schedule.Bearable may) :
    (o.advance me (.looking q) c).1.Fair o Seen Missed := by
  have hlook := (brings_look c hc).1
  simp only [Opening.advance]
  cases hresult : look c with
  | mk result c' =>
    rw [hresult] at hlook
    rcases hlook with hok | ⟨-, herror⟩
    · change result = .ok false at hok
      subst hok
      trivial
    · change result = .error (.refused .lockTimeout) at herror
      subst herror
      exact .inl rfl

theorem fair_returning {q : Player} (hc : c.schedule.Bearable may) :
    (o.advance me (.returning q) c).1.Fair o Seen Missed := by
  have hseek := (Contest.brings_seek .conflict c hc).1
  simp only [Opening.advance]
  cases hresult : Contest.seek .conflict c with
  | mk result c' =>
    rw [hresult] at hseek
    rcases hseek with hok | ⟨-, herror⟩
    · change result = .ok () at hok
      subst hok
      trivial
    · change result = .error (.refused .lockTimeout) at herror
      subst herror
      exact .inl rfl

/-- An opening that reads the try under the lock comes to it, or it is about to make it. -/
theorem fair_reading {q : Player} (hthere : ∀ t, c.store.find? o.key = some t → Seen t) :
    (o.advance me (.reading q) c).1.Fair o Seen Missed := by
  simp only [Opening.advance, Contest.readTry_apply]
  by_cases hindex : Store.holds o.key.index = true
  · rw [if_pos hindex]
    cases hfind : c.store.find? o.key with
    | none => trivial
    | some t => exact hthere t hfind
  · rw [if_neg hindex]
    exact .inr ⟨rfl, Bool.eq_false_iff.2 hindex⟩

theorem fair_rereading {q : Player} (hthere : ∀ t, c.store.find? o.key = some t → Seen t) :
    (o.advance me (.rereading q) c).1.Fair o Seen Missed := by
  simp only [Opening.advance, Contest.demandTry_apply]
  by_cases hindex : Store.holds o.key.index = true
  · rw [if_pos hindex]
    cases hfind : c.store.find? o.key with
    | none => exact .inl rfl
    | some t => exact hthere t hfind
  · rw [if_neg hindex]
    exact .inr ⟨rfl, Bool.eq_false_iff.2 hindex⟩

/-- The last read brings the try, or there is none. -/
theorem fair_salvaging (hthere : ∀ t, c.store.find? o.key = some t → Seen t)
    (hnone : c.store.find? o.key = none → Missed) :
    (o.advance me .salvaging c).1.Fair o Seen Missed := by
  simp only [Opening.advance, Contest.demandTry_apply]
  by_cases hindex : Store.holds o.key.index = true
  · rw [if_pos hindex]
    cases hfind : c.store.find? o.key with
    | none => exact .inl ⟨rfl, hnone hfind⟩
    | some t => exact hthere t hfind
  · rw [if_neg hindex]
    exact .inr ⟨rfl, Bool.eq_false_iff.2 hindex⟩

/-- Whatever an opening comes to in a step, it sees then or has seen before; and it misses the try at last
only where its last read finds none. -/
theorem Fair.advance {q : Player} (h : phase.Fair o Seen Missed)
    (hc : c.schedule.Bearable (phase.stage = .inside))
    (hcompetition : (c.directory.competition? o.competition).isSome = true)
    (hplayer : c.directory.player? o.player = some q)
    (hseen : ∀ t, Seen t → Seen' t) (hmissed : Missed → Missed')
    (hthere : ∀ t, c.store.find? o.key = some t → Seen' t)
    (hmade : ∀ t, (o.advance me phase c).2.store.find? o.key = some t → Seen' t)
    (hnone : phase = .salvaging → c.store.find? o.key = none → Missed') :
    (o.advance me phase c).1.Fair o Seen' Missed' := by
  -- Nothing breaks outside the lock.
  have houtside : ∀ {α : Type} {x : Action α} {a : α}, Brings (phase.stage = .inside) x a →
      phase.stage ≠ .inside → ∃ c', x c = (.ok a, c') := by
    intro α x a hx hstage
    rcases (hx c hc).1 with hok | ⟨hinside, -⟩
    · exact ⟨(x c).2, Prod.ext hok rfl⟩
    · exact absurd hinside hstage
  cases phase with
  | arriving | approaching =>
    rcases houtside Contest.brings_session (by simp [stage]) with ⟨c', hresult⟩
    simp only [Opening.advance, hresult]
    trivial
  | inquiring =>
    rcases Option.isSome_iff_exists.1 hcompetition with ⟨x, hx⟩
    simp only [Opening.advance, Contest.readCompetition_of_competition? hx]
    trivial
  | greeting =>
    simp only [Opening.advance, Contest.readPlayer_of_player? hplayer]
    trivial
  | queueing q | waiting q =>
    simp only [Opening.advance]
    split <;> trivial
  | looking q => exact fair_looking hc
  | reading q => exact fair_reading hthere
  | inserting q start => exact fair_afterInsert hc hmade
  | returning q => exact fair_returning hc
  | rereading q => exact fair_rereading hthere
  | closing q result =>
    cases result with
    | ok found => exact hseen found.entry h
    | error e => exact h
  | leaving q result => exact fair_afterLeave (h.mono hseen hmissed)
  | recovering =>
    rcases houtside (Contest.brings_seek .conflict) (by simp [stage]) with ⟨c', hresult⟩
    simp only [Opening.advance, hresult]
    trivial
  | salvaging => exact fair_salvaging hthere (hnone rfl)
  | done result => exact h.mono hseen hmissed

end Phase

end Opening

end PuzzleContest
