import PuzzleContest.Proofs.AllOrNothing
import PuzzleContest.Proofs.Progress
import PuzzleContest.Proofs.Undisturbed

/-!
# Opening a puzzle again

A player may open a puzzle any number of times, at any time, with any level, and whatever the catalog
makes of it.  The first opening that passes the gates makes the try; all others find it there, and
neither start it again nor announce it again.

Main results:

- `Opening.Phase.Smooth.advance`: every step of an opening that nothing disturbs goes well.
- `Opening.run_eq_ok`: so it returns the try of its key.
- `Contest.reopen_of_not_serves`, `Contest.reopen_of_serves`: what one opening does.
- `Contest.reopenAll_of_not_serves`, `Contest.reopenAll_of_serves`: what several ones do.
- `Contest.retriable_of_reachable`: opening a puzzle can be retried in every reachable contest.
-/

namespace PuzzleContest

open PuzzleContest.Action

/-- Whoever comes to a free lock holds it. -/
theorem Lock.Registry.holds_enter_of_find? {κ τ : Type} [DecidableEq κ] [DecidableEq τ]
    {r : Lock.Registry κ τ} {key : κ} (h : r.find? key = none) (task : τ) :
    (r.enter key task).holds key task = true := by
  simp [Lock.Registry.holds, Lock.Registry.holder?, find?_enter, h, Entry.fresh]

/-- A sequence of actions changes no try, if neither does where it takes place. -/
theorem Action.agrees_bind_of_ok {α β : Type} {x : Action α} {f : α → Action β} {c : Contest}
    (hx : c.Agrees (x c).2) (hf : ∀ a, (x c).1 = .ok a → (x c).2.Agrees (f a (x c).2).2) :
    c.Agrees ((x >>= f) c).2 := by
  rw [bind_apply]
  cases hresult : x c with
  | mk result c' =>
    rw [hresult] at hx hf
    cases result with
    | error e => exact hx
    | ok a => exact hx.trans (hf a rfl)

/-! ## Openings that nothing disturbs -/

namespace Opening

variable {me : Holder} {o : Opening} {c₀ c : Contest}

/-- What an opening needs of a contest: no fault is to come, its competition and its player are known,
its index can be stored, and the lock of its key is free. -/
structure Ready (o : Opening) (c : Contest) : Prop where
  schedule_eq : c.schedule = {}
  competition : ∃ x, c.directory.competition? o.competition = some x
  player : ∃ p, c.directory.player? o.player = some p
  index : Store.holds o.index = true
  free : c.locks.find? o.key = none

/-- What a phase needs for the rest of the run to go well. -/
def Phase.Smooth (o : Opening) (c : Contest) : Phase → Prop
  | arriving | inquiring | approaching | greeting | queueing _ => o.Ready c
  | looking _ | reading _ => c.schedule = {} ∧ Store.holds o.index = true
  | inserting _ _ => (c.schedule = {} ∧ Store.holds o.index = true) ∧ c.store.find? o.key = none
  | closing _ result | leaving _ result => ∃ found, result = .ok found
  | done result => ∃ t, result = .ok t
  | waiting _ | returning _ | rereading _ | recovering | salvaging => False

/-- A try that is missing is made where no fault is to come. -/
theorem insert_eq_ok {start : Moment} (hschedule : c.schedule = {})
    (hindex : Store.holds o.index = true) (hnone : c.store.find? o.key = none) :
    ∃ t c', o.insert start c = (.ok (some t), c') := by
  rw [insert_apply]
  simp only [andThen, Contest.commitFault_of_schedule hschedule,
    Contest.checkInteger_of_holds hindex, Store.add?, hnone]
  exact ⟨_, _, rfl⟩

/-- Every step of an opening keeps what the rest of the run needs. -/
theorem Phase.Smooth.advance {phase : Phase} (h : phase.Smooth o c) :
    (o.advance me phase c).1.Smooth o (o.advance me phase c).2 := by
  cases phase with
  | arriving | approaching =>
    simp only [Opening.advance, Contest.session_of_schedule (Ready.schedule_eq h)]
    exact h
  | inquiring =>
    rcases Ready.competition h with ⟨x, hx⟩
    simp only [Opening.advance, Contest.readCompetition_of_competition? hx]
    exact h
  | greeting =>
    rcases Ready.player h with ⟨p, hp⟩
    simp only [Opening.advance, Contest.readPlayer_of_player? hp]
    exact h
  | queueing p =>
    have hready : o.Ready c := h
    have hholds : (c.enter o.key me).locks.holds o.key me = true :=
      Lock.Registry.holds_enter_of_find? hready.free me
    simp only [Opening.advance, hholds, if_true]
    exact ⟨hready.schedule_eq, hready.index⟩
  | looking p =>
    have hlook : look c = (.ok false, c) := by
      simp [look, bind_apply, Contest.session_of_schedule h.1, Contest.glance_of_schedule h.1]
    simp only [Opening.advance, hlook, afterLook]
    exact h
  | reading p =>
    have hindex : Store.holds o.key.index = true := h.2
    simp only [Opening.advance, Contest.readTry_apply, hindex, if_true]
    cases hfind : c.store.find? o.key with
    | none => exact ⟨h, hfind⟩
    | some t => exact ⟨_, rfl⟩
  | inserting p start =>
    have hmade : ∃ t c', o.insert start c = (.ok (some t), c') := insert_eq_ok h.1.1 h.1.2 h.2
    rcases hmade with ⟨t, c', hinsert⟩
    simp only [Opening.advance, hinsert, afterInsert]
    exact ⟨_, rfl⟩
  | closing p result => exact h
  | leaving p result =>
    rcases h with ⟨found, rfl⟩
    exact ⟨found.entry, rfl⟩
  | done result => exact h
  | waiting | returning | rereading | recovering | salvaging => exact absurd h id

/-- An opening is under way, and the rest of its run will go well. -/
def Goes (o : Opening) (d : Deed) (c : Contest) : Prop :=
  ∀ phase, d = .opening o phase → phase.Smooth o c

/-- An opening that nothing disturbs returns the try of its key. -/
theorem run_eq_ok (me : Holder) (hs : c.store.Sound) (hc : c.store.Cascaded) (h : o.Ready c) :
    ∃ t, (o.run me c).1 = .ok t ∧ (o.run me c).2.store.Knows o.key t := by
  have hend : o.Goes (.opening o (.done (o.run me c).1)) (o.run me c).2 := by
    refine runFrom_induction (P := o.Goes) ?_ (since_arriving o hs hc) ?_
    · rintro phase c' - - hgoes phase' heq
      rw [Deed.opening.injEq] at heq
      rw [← heq.2]
      exact (hgoes phase rfl).advance
    · rintro phase heq
      rw [Deed.opening.injEq] at heq
      rw [← heq.2]
      exact h
  have hsince : Deed.Since c (.opening o (.done (o.run me c).1)) (o.run me c).2 :=
    since_runFrom (since_arriving o hs hc)
  have hinformed : Phase.Informed o (o.run me c).2.directory (o.run me c).2.store
      (.done (o.run me c).1) := hsince.informed
  rcases hend _ rfl with ⟨t, ht⟩
  exact ⟨t, ht, hinformed t ht⟩

/-! ## What whole openings do -/

/-- Nobody but a player who may see the puzzle, in a competition that is known, opens it. -/
structure Welcome (o : Opening) (c : Contest) : Prop where
  visible : c.store.unlocks o.competition o.player o.index = true
  competition : ∃ x, c.directory.competition? o.competition = some x
  player : ∃ p, c.directory.player? o.player = some p

/-- The try of a key is made and announced. -/
structure Makes (o : Opening) (c c' : Contest) : Prop where
  absent : c.store.find? o.key = none
  store_eq : c'.store =
    { tries := c.store.tries ++ [Store.fresh c.store.issued o.key o.level c.now]
      issued := c.store.issued + 1 }
  announced : ∃ p, c.directory.player? o.player = some p ∧ c'.outbox = c.outbox ++
    [⟨o.competition, ⟨Store.fresh c.store.issued o.key o.level c.now, some p⟩, .made⟩]

theorem makes_of_becomes {c' : Contest} (h : c.Becomes (some (o.key, .opening o.level c.now)) c') :
    o.Makes c c' ∧ Store.holds o.index = true := by
  cases h with
  | @changed _ _ _ tidings p hdirectory hplan hnow hmoment hplayer hchange houtbox =>
    cases hchange with
    | opened hstep hindex hadd =>
      rcases Store.add?_eq_some_iff.1 hadd with ⟨hnone, ht, hstore⟩
      rw [ht] at hstore
      refine ⟨⟨hnone, hstore, p, hplayer, ?_⟩, hindex⟩
      rw [houtbox, ht]
      rfl

/-- A try that is made keeps a store sound and cascaded, and is there. -/
theorem Makes.sound {c' : Contest} (h : o.Makes c c') (hindex : Store.holds o.index = true)
    (hs : c.store.Sound) (hc : c.store.Cascaded) :
    c'.store.Sound ∧ c'.store.Cascaded ∧ ∃ t, c'.store.find? o.key = some t := by
  have hadd : c.store.add? o.key o.level c.now =
      some (Store.fresh c.store.issued o.key o.level c.now, c'.store) :=
    Store.add?_eq_some_iff.2 ⟨h.absent, rfl, h.store_eq⟩
  refine ⟨hs.add hindex hadd, hc.opened_change rfl hadd,
    Store.fresh c.store.issued o.key o.level c.now, ?_⟩
  rw [Store.find?_add hadd, if_pos rfl]

/-- The opening of a level that cannot be stored makes nothing at all. -/
theorem runUnstorable_agrees (me : Holder) (o : Opening) (hs : c.store.Sound)
    (hc : c.store.Cascaded) : c.Agrees (o.runUnstorable me c).2 := by
  unfold runUnstorable
  rcases o.run_becomes me hs hc with h | h
  · cases h with
    | same hagrees =>
      simp only [if_pos (congrArg Store.issued hagrees.store_eq)]
      exact hagrees
  · have hissued : (o.run me c).2.store.issued ≠ c.store.issued := by
      rw [(makes_of_becomes h).1.store_eq]
      simp
    simp only [if_neg hissued]
    exact ⟨rfl, rfl, rfl, rfl, rfl⟩

theorem playUnstorable_agrees (me : Holder) (o : Opening) (hs : c.store.Sound)
    (hc : c.store.Cascaded) : c.Agrees (o.playUnstorable me c).2 := by
  have hgate := o.isRead_gate.agrees c
  refine agrees_bind_of_ok hgate fun x _ => agrees_bind_of_ok ?_ fun t _ => o.fetch_agrees x _
  exact runUnstorable_agrees me o (hgate.store_eq ▸ hs) (hgate.store_eq ▸ hc)

/-- A whole opening changes nothing, or it is welcome and makes the try of its key. -/
theorem play_cases (me : Holder) (o : Opening) (hs : c.store.Sound) (hc : c.store.Cascaded) :
    c.Agrees (o.play me c).2 ∨
      o.Welcome c ∧ Store.holds o.index = true ∧ o.Makes c (o.play me c).2 := by
  rcases becomes_of_middle (fun c => o.run_becomes me) hs hc with h | h
  · cases h with
    | same hagrees => exact .inl hagrees
  · rcases makes_of_becomes h with ⟨hmakes, hindex⟩
    cases hgate : o.gate c with
    | mk result c₁ =>
      cases result with
      | error e =>
        have hplay : (o.play me c).2 = c₁ := by
          unfold play
          rw [bind_apply, hgate]
        rw [hplay]
        exact .inl (o.isRead_gate.agrees_of_eq hgate)
      | ok x =>
        rcases gate_eq_ok hgate with ⟨hvisible, hx⟩
        rcases hmakes.announced with ⟨p, hp, -⟩
        exact .inr ⟨⟨hvisible, ⟨x, hx⟩, p, hp⟩, hindex, hmakes⟩

/-- While no fault is to come, those who are welcome pass the gates. -/
theorem Welcome.gate_apply (h : o.Welcome c) (hs : c.store.Sound) (hschedule : c.schedule = {}) :
    ∃ x, o.gate c = (.ok x, c) := by
  rcases h.competition with ⟨x, hx⟩
  have hprevious : Store.holds (o.index - 1) = true := by
    rcases Store.unlocks_eq_true_iff.1 h.visible with hzero | ⟨t, ht, -, -, hindex, -⟩
    · rw [hzero]
      decide
    · exact hindex ▸ hs.storable t ht
  have hvisible := Contest.ensureVisible_of_unlocks hschedule hprevious h.visible
  refine ⟨x, ?_⟩
  simp [gate, bind_apply, hvisible, Contest.findCompetition_of_competition? hschedule hx]

/-- A welcome opening that nothing disturbs makes the try of its key, if there is none. -/
theorem makes_play (me : Holder) (hs : c.store.Sound) (hc : c.store.Cascaded) (h : o.Welcome c)
    (hready : o.Ready c) (hnone : c.store.find? o.key = none) : o.Makes c (o.play me c).2 := by
  rcases h.gate_apply hs hready.schedule_eq with ⟨x, hgate⟩
  rcases run_eq_ok me hs hc hready with ⟨t, ht, -, row, hrow, -⟩
  have hmakes : o.Makes c (o.run me c).2 := by
    rcases o.run_becomes me hs hc with hsame | hbecomes
    · cases hsame with
      | same hagrees =>
        rw [hagrees.store_eq, hnone] at hrow
        exact absurd hrow (by simp)
    · exact (makes_of_becomes hbecomes).1
  have hplay : (o.play me c).2 = (o.fetch x (o.run me c).2).2 := by
    unfold play
    simp only [bind_apply, hgate]
    cases hrun : o.run me c with
    | mk result c₁ =>
      rw [hrun] at ht
      change result = .ok t at ht
      subst ht
      rfl
  have hagrees := o.fetch_agrees x (o.run me c).2
  rcases hmakes.announced with ⟨p, hp, hannounced⟩
  refine ⟨hnone, ?_, p, hp, ?_⟩
  · rw [hplay, hagrees.store_eq]
    exact hmakes.store_eq
  · rw [hplay, hagrees.outbox_eq]
    exact hannounced

end Opening

/-! ## Several openings of one puzzle -/

namespace Contest

/-- One of several openings of a puzzle: who opens it with which level, and what lies around the tries by
then, among it the players, the competitions and the addresses of their catalogs. -/
structure Reopening where
  me : Holder
  level : String
  /-- Whether the level can be stored. -/
  storable : Bool
  directory : Directory
  around : Surroundings

/-- The contest that one of several openings meets. -/
def met (c : Contest) (r : Reopening) : Contest :=
  { c.after (.around r.around) with directory := r.directory }

/-- The same puzzle is opened with another level. -/
def Reopening.of (r : Reopening) (o : Opening) : Opening := { o with level := r.level }

/-- The contest after a puzzle has been opened once more. -/
def reopen (o : Opening) (c : Contest) (r : Reopening) : Contest :=
  ((if r.storable then (r.of o).play r.me else (r.of o).playUnstorable r.me) (c.met r)).2

/-- The contest after a puzzle has been opened several times. -/
def reopenAll (c : Contest) (o : Opening) (rs : List Reopening) : Contest := rs.foldl (reopen o) c

/-- No fault of the storage is to come, and the lock of the try is free. -/
structure Reopening.Calm (o : Opening) (r : Reopening) : Prop where
  schedule_eq : r.around.schedule = {}
  free : r.around.locks.find? o.key = none

/-- An opening that can make the try: its gate, its competition and its player are in order, and its
index and its level can be stored. -/
structure Reopening.Serves (o : Opening) (c : Contest) (r : Reopening) : Prop where
  welcome : o.Welcome (c.met r)
  index : Store.holds o.index = true
  level : r.storable = true

/-- The same tries, and nothing new announced. -/
def SameTries (c c' : Contest) : Prop := c'.store = c.store ∧ c'.outbox = c.outbox

variable {c c' c'' : Contest} {o : Opening} {r : Reopening} {rs : List Reopening}

theorem Agrees.sameTries (h : c.Agrees c') : c.SameTries c' := ⟨h.store_eq, h.outbox_eq⟩

theorem SameTries.trans (h : c.SameTries c') (h' : c'.SameTries c'') : c.SameTries c'' :=
  ⟨h'.1.trans h.1, h'.2.trans h.2⟩

/-- Who is welcome does not depend on the level. -/
theorem Reopening.welcome_of_iff : (r.of o).Welcome c ↔ o.Welcome c :=
  ⟨fun h => ⟨h.visible, h.competition, h.player⟩, fun h => ⟨h.visible, h.competition, h.player⟩⟩

/-- What an opening can do depends, of the contest, on the tries alone. -/
theorem Reopening.Serves.congr (hstore : c'.store = c.store) (h : r.Serves o c') : r.Serves o c :=
  ⟨⟨hstore ▸ h.welcome.visible, h.welcome.competition, h.welcome.player⟩, h.index, h.level⟩

/-- One opening changes nothing, or it makes the try. -/
theorem reopen_cases (hs : c.store.Sound) (hc : c.store.Cascaded) (o : Opening) (r : Reopening) :
    c.SameTries (c.reopen o r) ∨
      r.Serves o c ∧ (r.of o).Makes (c.met r) (c.reopen o r) := by
  unfold reopen
  cases hstorable : r.storable with
  | false => exact .inl ((r.of o).playUnstorable_agrees (c := c.met r) r.me hs hc).sameTries
  | true =>
    rcases (r.of o).play_cases (c := c.met r) r.me hs hc with hagrees | ⟨hwelcome, hindex, hmakes⟩
    · exact .inl hagrees.sameTries
    · exact .inr ⟨⟨Reopening.welcome_of_iff.1 hwelcome, hindex, hstorable⟩, hmakes⟩

/-- One opening that cannot make the try changes nothing. -/
theorem reopen_of_not_serves (hs : c.store.Sound) (hc : c.store.Cascaded)
    (h : c.store.find? o.key = none → ¬r.Serves o c) : c.SameTries (c.reopen o r) := by
  rcases reopen_cases hs hc o r with hsame | ⟨hserves, hmakes⟩
  · exact hsame
  · exact absurd hserves (h hmakes.absent)

/-- One opening that can make the try does so, if nothing disturbs it. -/
theorem reopen_of_serves (hs : c.store.Sound) (hc : c.store.Cascaded) (hcalm : r.Calm o)
    (hnone : c.store.find? o.key = none) (h : r.Serves o c) :
    (r.of o).Makes (c.met r) (c.reopen o r) := by
  have hwelcome : (r.of o).Welcome (c.met r) := Reopening.welcome_of_iff.2 h.welcome
  have hready : (r.of o).Ready (c.met r) :=
    ⟨hcalm.schedule_eq, h.welcome.competition, h.welcome.player, h.index, hcalm.free⟩
  unfold reopen
  rw [h.level, if_pos rfl]
  exact Opening.makes_play r.me hs hc hwelcome hready hnone

/-- Openings that cannot make the try change nothing. -/
theorem reopenAll_of_not_serves (hs : c.store.Sound) (hc : c.store.Cascaded)
    (h : c.store.find? o.key = none → ∀ r ∈ rs, ¬r.Serves o c) :
    c.SameTries (c.reopenAll o rs) := by
  induction rs generalizing c with
  | nil => exact ⟨rfl, rfl⟩
  | cons r rest ih =>
    have hfirst := reopen_of_not_serves hs hc fun hnone => h hnone r List.mem_cons_self
    have hstore := hfirst.1
    refine hfirst.trans (ih (hstore ▸ hs) (hstore ▸ hc) fun hnone x hx hserves => ?_)
    exact h (hstore ▸ hnone) x (List.mem_cons_of_mem r hx) (hserves.congr hstore)

/-- Of several openings the first that can make the try does so, and the others change nothing. -/
theorem reopenAll_of_serves {before rest : List Reopening} (hs : c.store.Sound)
    (hc : c.store.Cascaded) (hcalm : r.Calm o) (hnone : c.store.find? o.key = none)
    (hbefore : ∀ x ∈ before, ¬x.Serves o c) (h : r.Serves o c) :
    (r.of o).Makes (c.met r) (c.reopenAll o (before ++ r :: rest)) := by
  have hskipped : c.SameTries (c.reopenAll o before) :=
    reopenAll_of_not_serves hs hc fun _ => hbefore
  rcases hskipped with ⟨hstore, houtbox⟩
  have hmakes := reopen_of_serves (c := c.reopenAll o before) (hstore ▸ hs) (hstore ▸ hc) hcalm
    (hstore ▸ hnone) (h.congr (c := c.reopenAll o before) hstore.symm)
  rcases hmakes.sound h.index (hstore ▸ hs) (hstore ▸ hc) with ⟨hs', hc', t, ht⟩
  have hlater : SameTries ((c.reopenAll o before).reopen o r)
      (((c.reopenAll o before).reopen o r).reopenAll o rest) := by
    refine reopenAll_of_not_serves hs' hc' fun hmissing => ?_
    rw [show ((c.reopenAll o before).reopen o r).store.find? o.key = some t from ht] at hmissing
    exact absurd hmissing (by simp)
  have hall : c.reopenAll o (before ++ r :: rest) =
      ((c.reopenAll o before).reopen o r).reopenAll o rest := by
    simp only [reopenAll, List.foldl_append, List.foldl_cons]
  have hstore' : ((c.reopenAll o before).met r).store = (c.met r).store := hstore
  have houtbox' : ((c.reopenAll o before).met r).outbox = (c.met r).outbox := houtbox
  rcases hmakes.announced with ⟨p, hp, hannounced⟩
  refine ⟨hnone, ?_, p, hp, ?_⟩
  · rw [hall, hlater.1, hmakes.store_eq, hstore']
    rfl
  · rw [hall, hlater.2, hannounced, houtbox', hstore']
    rfl

/-! ## Retries -/

/-- Opening a puzzle again is safe. -/
structure Retriable (c : Contest) (o : Opening) (rs : List Reopening) : Prop where
  /-- After the first opening that is in order the tries stay as it leaves them. -/
  idempotent (r : Reopening) (rest : List Reopening) : rs = r :: rest → o.Welcome (c.met r) →
    r.storable = true → (c.reopenAll o rs).store = (c.reopen o r).store
  /-- A try that is there, finished or not, is neither changed nor announced. -/
  kept (t : Try Nat) : c.store.find? o.key = some t → c.SameTries (c.reopenAll o rs)
  /-- Else it is made and announced once, with level and clock of the first opening that serves. -/
  made (before rest : List Reopening) (r : Reopening) : rs = before ++ r :: rest →
    (∀ x ∈ before, ¬x.Serves o c) → r.Serves o c → c.store.find? o.key = none →
      (r.of o).Makes (c.met r) (c.reopenAll o rs)
  /-- Openings that do not pass the gates leave no trace. -/
  refused : (∀ r ∈ rs, ¬o.Welcome (c.met r)) → c.SameTries (c.reopenAll o rs)

/-- In every reachable contest a puzzle can be opened any number of times, with any levels, at any
times and whatever the catalog does, as long as nothing disturbs the storage and the locks. -/
theorem retriable_of_reachable (h : c.Reachable) (hcalm : ∀ r ∈ rs, r.Calm o) :
    c.Retriable o rs := by
  rcases h.sound with ⟨hs, hc⟩
  have hkept : ∀ t, c.store.find? o.key = some t → ∀ xs, c.SameTries (c.reopenAll o xs) := by
    intro t ht xs
    exact reopenAll_of_not_serves hs hc fun hnone => absurd (ht.symm.trans hnone) (by simp)
  refine ⟨?_, fun t ht => hkept t ht rs, ?_, ?_⟩
  · rintro r rest rfl hwelcome hstorable
    have hfirst : c.reopenAll o [r] = c.reopen o r := rfl
    rw [← hfirst]
    by_cases hindex : Store.holds o.index = true
    · have hserves : r.Serves o c := ⟨hwelcome, hindex, hstorable⟩
      have hr := hcalm r List.mem_cons_self
      cases hfind : c.store.find? o.key with
      | some t => exact (hkept t hfind _).1.trans (hkept t hfind _).1.symm
      | none =>
        have hmakes : ∀ more, (r.of o).Makes (c.met r) (c.reopenAll o ([] ++ r :: more)) :=
          fun more => reopenAll_of_serves hs hc hr hfind (by simp) hserves
        exact (hmakes rest).store_eq.trans (hmakes []).store_eq.symm
    · have hsame : ∀ xs, c.SameTries (c.reopenAll o xs) := fun xs =>
        reopenAll_of_not_serves hs hc fun _ x _ hx => hindex hx.index
      exact (hsame _).1.trans (hsame _).1.symm
  · rintro before rest r rfl hbefore hserves hnone
    have hr := hcalm r (List.mem_append_right before List.mem_cons_self)
    exact reopenAll_of_serves hs hc hr hnone hbefore hserves
  · intro hrefused
    exact reopenAll_of_not_serves hs hc fun _ r hr hserves => hrefused r hr hserves.welcome

/-- A puzzle is opened four times: before its catalog has an address, with another level while the
catalog is down, with an empty address, and when its competition is not known any more. -/
theorem retriable_sample :
    let start := ((Crowd.begin sample []).run []).contest
    let at' (minutes : Int) (catalog : Catalog.Request → Catalog.Reply) : Surroundings :=
      { start with
        now := { sample.now with wall := sample.now.wall + minutes * 60000000 }, catalog := catalog }
    let directory (address : Option String) : Directory :=
      { start.directory with
        competitions := [{ id := "cup", theme := "sea", address := address }] }
    let rs : List Reopening :=
      [⟨.caller 0, "EASY", true, directory none, at' 0 sample.catalog⟩,
        ⟨.caller 1, "HARD", true, start.directory, at' 5 fun _ => .unreachable "down"⟩,
        ⟨.caller 2, "HARD", true, directory (some ""), at' 7 sample.catalog⟩,
        ⟨.caller 3, "EASY", true, { start.directory with competitions := [] }, at' 9 sample.catalog⟩]
    start.Reachable ∧ (∀ r ∈ rs, r.Calm sampleOpening) ∧ start.Retriable sampleOpening rs ∧
      (start.reopenAll sampleOpening rs).store.tries.map (·.level) = ["EASY"] ∧
      (start.reopenAll sampleOpening rs).store.tries.map (·.start) = [start.now] ∧
      (start.reopenAll sampleOpening rs).outbox.map (·.news) = [.made] := by
  intro start at' directory rs
  have hreachable : start.Reachable := .crowd ..
  have hcalm : ∀ r ∈ rs, r.Calm sampleOpening := by
    intro r hr
    simp only [rs, List.mem_cons, List.not_mem_nil, or_false] at hr
    rcases hr with rfl | rfl | rfl | rfl <;> exact ⟨rfl, rfl⟩
  refine ⟨hreachable, hcalm, retriable_of_reachable hreachable hcalm, ?_, ?_, ?_⟩ <;> decide +kernel

end Contest

end PuzzleContest
