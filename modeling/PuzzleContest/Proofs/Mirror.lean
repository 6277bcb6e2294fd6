import PuzzleContest.Proofs.Outlook
import PuzzleContest.Proofs.Undisturbed

/-!
# Contests that look the same from a seat

Two contests mirror each other for a seat if they have the same surroundings and show the same there.
An action of this seat then comes to the same in both, but for the numbers of tries, and leaves two
contests that mirror each other again.

Main results:

- `Contest.Mirrors`: two contests that look the same from a seat.
- `Action.Echoes`, `Action.Respects`: what comes of an action in two such contests.
- `Action.Echoes.bind`: sequences of actions.
- `Opening.respects_gate`, `Attempt.respects_gate`, `Query.respects_run`: gates and queries.
-/

namespace PuzzleContest

namespace Contest

variable {seat : Seat} {c d : Contest} {key : Try.Key}

/-- What has been announced of the tries of a seat. -/
def newsOf (c : Contest) (seat : Seat) : List (Announcement Nat) :=
  c.outbox.filter fun a => a.snapshot.entry.key.seat = seat

/-- What has been announced of the tries of a seat, without their numbers. -/
def told (c : Contest) (seat : Seat) : List (Announcement Nat) :=
  (c.newsOf seat).map (Announcement.renumber blank)

/-- Two contests that look the same from a seat, with the same surroundings but for the locks. -/
structure Mirrors (seat : Seat) (c d : Contest) : Prop where
  directory_eq : d.directory = c.directory
  plan_eq : d.plan = c.plan
  now_eq : d.now = c.now
  catalog_eq : d.catalog = c.catalog
  client_eq : d.client = c.client
  schedule_eq : d.schedule = c.schedule
  shown_eq : d.store.shown seat = c.store.shown seat
  told_eq : d.told seat = c.told seat

theorem Mirrors.find?_eq (h : Mirrors seat c d) (hseat : key.seat = seat) :
    (d.store.find? key).map (Try.renumber blank) = (c.store.find? key).map (Try.renumber blank) := by
  rw [Store.map_find?, Store.map_find?, hseat, h.shown_eq]

theorem Mirrors.unlocks_eq {competition player : String} (h : Mirrors ⟨competition, player⟩ c d)
    (index : Int) :
    d.store.unlocks competition player index = c.store.unlocks competition player index := by
  rw [Store.unlocks_eq, Store.unlocks_eq, h.shown_eq]

theorem Mirrors.trans {e : Contest} (h : Mirrors seat c d) (h' : Mirrors seat d e) :
    Mirrors seat c e :=
  ⟨h'.directory_eq.trans h.directory_eq, h'.plan_eq.trans h.plan_eq, h'.now_eq.trans h.now_eq,
    h'.catalog_eq.trans h.catalog_eq, h'.client_eq.trans h.client_eq,
    h'.schedule_eq.trans h.schedule_eq, h'.shown_eq.trans h.shown_eq, h'.told_eq.trans h.told_eq⟩

theorem Mirrors.symm (h : Mirrors seat c d) : Mirrors seat d c :=
  ⟨h.directory_eq.symm, h.plan_eq.symm, h.now_eq.symm, h.catalog_eq.symm, h.client_eq.symm,
    h.schedule_eq.symm, h.shown_eq.symm, h.told_eq.symm⟩

/-- Faults that are used up are used up in both. -/
theorem Mirrors.scheduled (h : Mirrors seat c d) (schedule : Schedule) :
    Mirrors seat { c with schedule := schedule } { d with schedule := schedule } :=
  ⟨h.directory_eq, h.plan_eq, h.now_eq, h.catalog_eq, h.client_eq, rfl, h.shown_eq, h.told_eq⟩

end Contest

/-! ## Actions in two contests -/

namespace Action

open PuzzleContest.Contest

variable {α β γ δ : Type} {seat : Seat}

/-- Two ends of actions that look the same from a seat: the same failure, or results of which a
function shows the same. -/
structure Echoes (seat : Seat) (f : α → β) (x y : Except Failure α × Contest) : Prop where
  result_eq : y.1.map f = x.1.map f
  mirrors : Mirrors seat x.2 y.2

/-- An action that comes to the same in contests that look the same from a seat. -/
def Respects (seat : Seat) (f : α → β) (x : Action α) : Prop :=
  ∀ c d, Mirrors seat c d → Echoes seat f (x c) (x d)

/-- Results of which a function shows the same have failed alike or are both there. -/
theorem cases_of_map_eq {f : α → β} {x y : Except Failure α} (h : y.map f = x.map f) :
    (∃ e, x = .error e ∧ y = .error e) ∨ ∃ a b, x = .ok a ∧ y = .ok b ∧ f b = f a := by
  cases x with
  | error e =>
    cases y with
    | error e' =>
      have he : e' = e := by simpa [Except.map] using h
      exact .inl ⟨e, rfl, congrArg Except.error he⟩
    | ok b => exact absurd h (by simp [Except.map])
  | ok a =>
    cases y with
    | error e' => exact absurd h (by simp [Except.map])
    | ok b => exact .inr ⟨a, b, rfl, rfl, by simpa [Except.map] using h⟩

theorem Echoes.cases {f : α → β} {x y : Except Failure α × Contest} (h : Echoes seat f x y) :
    (∃ e c d, x = (.error e, c) ∧ y = (.error e, d) ∧ Mirrors seat c d) ∨
      ∃ a b c d, x = (.ok a, c) ∧ y = (.ok b, d) ∧ f b = f a ∧ Mirrors seat c d := by
  rcases x with ⟨result, c⟩
  rcases y with ⟨result', d⟩
  rcases cases_of_map_eq h.result_eq with ⟨e, hc, hd⟩ | ⟨a, b, hc, hd, hab⟩
  · exact .inl ⟨e, c, d, congrArg (·, c) hc, congrArg (·, d) hd, h.mirrors⟩
  · exact .inr ⟨a, b, c, d, congrArg (·, c) hc, congrArg (·, d) hd, hab, h.mirrors⟩

/-- Sequences of actions come to the same, if their parts do where they take place. -/
theorem Echoes.bind {f : α → γ} {g : β → δ} {x y : Action α} {k l : α → Action β} {c d : Contest}
    (h : Echoes seat f (x c) (y d))
    (hnext : ∀ a b c' d', x c = (.ok a, c') → y d = (.ok b, d') → f b = f a → Mirrors seat c' d' →
      Echoes seat g (k a c') (l b d')) :
    Echoes seat g ((x >>= k) c) ((y >>= l) d) := by
  rw [bind_apply, bind_apply]
  rcases h.cases with ⟨e, c', d', hx, hy, hmirrors⟩ | ⟨a, b, c', d', hx, hy, hab, hmirrors⟩
  · rw [hx, hy]
    exact ⟨rfl, hmirrors⟩
  · rw [hx, hy]
    exact hnext a b c' d' hx hy hab hmirrors

theorem Respects.bind {g : β → δ} {x : Action α} {k : α → Action β} (hx : Respects seat id x)
    (hk : ∀ a, Respects seat g (k a)) : Respects seat g (x >>= k) := by
  intro c d h
  refine (hx c d h).bind fun a b c' d' _ _ hab h' => ?_
  have hb : b = a := hab
  rw [hb]
  exact hk a c' d' h'

theorem Respects.ite {f : α → β} {p : Prop} [Decidable p] {x y : Action α} (hx : Respects seat f x)
    (hy : Respects seat f y) : Respects seat f (if p then x else y) := by
  by_cases h : p
  · rw [if_pos h]
    exact hx
  · rw [if_neg h]
    exact hy

/-- A failure or a result that looks the same does so after a function that keeps the looks. -/
theorem Echoes.map {f : α → γ} {g : β → δ} {x y : Action α} {k : α → β} {c d : Contest}
    (h : Echoes seat f (x c) (y d))
    (hk : ∀ a b, f b = f a → g (k b) = g (k a)) :
    Echoes seat g (x.map k c) (y.map k d) := by
  unfold Action.map
  rcases h.cases with ⟨e, c', d', hc, hd, h'⟩ | ⟨a, b, c', d', hc, hd, hab, h'⟩
  · rw [hc, hd]
    exact ⟨rfl, h'⟩
  · rw [hc, hd]
    exact ⟨congrArg Except.ok (hk a b hab), h'⟩

theorem Respects.map {f : α → γ} {g : β → δ} {x : Action α} {k : α → β} (hx : Respects seat f x)
    (hk : ∀ a b, f b = f a → g (k b) = g (k a)) : Respects seat g (x.map k) :=
  fun c d h => (hx c d h).map hk

theorem respects_pure (f : α → β) (a : α) : Respects seat f (pure a : Action α) :=
  fun _ _ h => ⟨rfl, h⟩

theorem respects_fail (f : α → β) (e : Failure) : Respects seat f (fail e : Action α) :=
  fun _ _ h => ⟨rfl, h⟩

theorem respects_refuse (f : α → β) (r : Refusal) : Respects seat f (refuse r : Action α) :=
  respects_fail f _

theorem respects_view {f : α → β} {look : Contest → α}
    (hlook : ∀ c d, Mirrors seat c d → f (look d) = f (look c)) : Respects seat f (view look) :=
  fun c d h => ⟨congrArg Except.ok (hlook c d h), h⟩

end Action

open PuzzleContest.Action

/-! ## Dealings with the storage -/

namespace Contest

variable {seat : Seat} {key : Try.Key}

theorem respects_session : Respects seat id session := by
  intro c d h
  unfold session
  rw [h.schedule_eq]
  cases c.schedule.sessions with
  | nil => exact ⟨rfl, h⟩
  | cons head sessions => exact ⟨rfl, h.scheduled _⟩

theorem respects_findFault : Respects seat id findFault := by
  intro c d h
  unfold findFault
  rw [h.schedule_eq]
  cases c.schedule.finds with
  | nil => exact ⟨rfl, h⟩
  | cons head finds => exact ⟨rfl, h.scheduled _⟩

theorem respects_overlooks : Respects seat id overlooks := by
  intro c d h
  unfold overlooks
  rw [h.schedule_eq]
  cases c.schedule.hidden with
  | nil => exact ⟨rfl, h⟩
  | cons head hidden => exact ⟨rfl, h.scheduled _⟩

theorem respects_commitFault : Respects seat id commitFault := by
  intro c d h
  unfold commitFault
  rw [h.schedule_eq]
  cases c.schedule.commits with
  | nil => exact ⟨rfl, h⟩
  | cons head commits => exact ⟨rfl, h.scheduled _⟩

theorem respects_checkInteger (n : Int) : Respects seat id (checkInteger n) :=
  .ite (respects_pure id ()) (respects_fail id _)

theorem respects_checkStep (step : Int) : Respects seat id (checkStep step) :=
  .ite (respects_pure id ()) (respects_fail id _)

theorem respects_glance : Respects seat id glance :=
  respects_findFault.bind fun _ => respects_overlooks

theorem respects_seek (missing : Refusal) : Respects seat id (seek missing) :=
  respects_session.bind fun _ => respects_glance.bind fun _ =>
    .ite (respects_refuse id _) (respects_pure id ())

theorem respects_readPlayer (id' : String) : Respects seat id (readPlayer id') := by
  have hview : Respects seat id (view fun c => c.directory.player? id') :=
    respects_view fun c d h => by rw [h.directory_eq]
  refine hview.bind fun p => ?_
  cases p with
  | none => exact respects_refuse id _
  | some p => exact respects_pure id p

theorem respects_readCompetition (id' : String) : Respects seat id (readCompetition id') := by
  have hview : Respects seat id (view fun c => c.directory.competition? id') :=
    respects_view fun c d h => by rw [h.directory_eq]
  refine hview.bind fun x => ?_
  cases x with
  | none => exact respects_refuse id _
  | some x => exact respects_pure id x

theorem respects_findCompetition (id' : String) : Respects seat id (findCompetition id') :=
  respects_session.bind fun _ => respects_readCompetition id'

/-! ## Reads of the seat's own tries -/

theorem respects_readTry (hseat : key.seat = seat) :
    Respects seat (Option.map (Try.renumber blank)) (readTry key) :=
  (respects_checkInteger _).bind fun _ => respects_view fun _ _ h => h.find?_eq hseat

theorem respects_demandTry (hseat : key.seat = seat) (missing : Refusal) :
    Respects seat (Try.renumber blank) (demandTry key missing) := by
  intro c d h
  refine (respects_readTry hseat c d h).bind fun a b c' d' _ _ hab h' => ?_
  cases a with
  | none =>
    cases b with
    | none => exact ⟨rfl, h'⟩
    | some u => exact absurd hab (by simp)
  | some t =>
    cases b with
    | none => exact absurd hab (by simp)
    | some u => exact ⟨congrArg Except.ok (Option.some.inj hab), h'⟩

theorem respects_seekTry (key : Try.Key) : Respects seat id (seekTry key) :=
  (respects_checkStep _).bind fun _ => respects_seek _

theorem respects_seekView (index : Int) : Respects seat id (seekView index) :=
  .ite (respects_pure id ()) respects_session

theorem respects_readView (competition player : String) (index : Int) :
    Respects ⟨competition, player⟩ id (readView competition player index) :=
  .ite (respects_pure id true) <|
    (respects_checkInteger _).bind fun _ => respects_view fun _ _ h => h.unlocks_eq index

theorem respects_ensureVisible (competition player : String) (index : Int) :
    Respects ⟨competition, player⟩ id (ensureVisible competition player index) :=
  (respects_seekView index).bind fun _ => (respects_readView competition player index).bind fun _ =>
    .ite (respects_pure id ()) (respects_refuse id _)

theorem respects_addressOf (x : Competition) : Respects seat id (addressOf x) := by
  unfold addressOf
  cases x.address with
  | none => exact respects_refuse id _
  | some address => exact respects_pure id address

/-- A question to the same catalog has the same answer. -/
theorem respects_ask {α : Type} {question : Contest → Catalog.Exchange α}
    (h : ∀ c d, Mirrors seat c d → question d = question c) : Respects seat id (ask question) := by
  intro c d hmirrors
  refine ⟨?_, ?_⟩
  · simp only [ask, h c d hmirrors]
  · exact ⟨hmirrors.directory_eq, hmirrors.plan_eq, hmirrors.now_eq, hmirrors.catalog_eq,
      hmirrors.client_eq, hmirrors.schedule_eq, hmirrors.shown_eq, hmirrors.told_eq⟩

end Contest

/-! ## Gates and questions -/

theorem Opening.respects_gate (o : Opening) : Respects o.key.seat id o.gate :=
  (Contest.respects_ensureVisible _ _ _).bind fun _ => Contest.respects_findCompetition _

theorem Opening.respects_fetch {seat : Seat} (o : Opening) (x : Competition) :
    Respects seat id (o.fetch x) :=
  (Contest.respects_addressOf x).bind fun _ => Contest.respects_ask fun c d h => by
    rw [h.catalog_eq, h.client_eq]

/-- A cooldown does not depend on the number of the try. -/
theorem Attempt.respects_consult (a : Attempt) : Respects a.key.seat id a.consult := by
  intro c d h
  refine (Contest.respects_demandTry rfl _ c d h).bind fun t u c' d' _ _ htu h' => ?_
  rcases Try.exists_id_of_renumber htu with ⟨n, rfl⟩
  unfold checkTry Try.isFinished
  dsimp only
  rw [h'.plan_eq, h'.now_eq]
  by_cases hfinished : t.finish.isSome = true
  · rw [if_pos hfinished, if_pos hfinished]
    exact ⟨rfl, h'⟩
  · rw [if_neg hfinished, if_neg hfinished]
    cases Cooldown.gate c'.plan t.attempts t.lastMove c'.now with
    | none => exact ⟨rfl, h'⟩
    | some gate => cases gate <;> exact ⟨rfl, h'⟩

theorem Attempt.respects_gate (a : Attempt) : Respects a.key.seat id a.gate :=
  (Contest.respects_checkStep _).bind fun _ => (Contest.respects_ensureVisible _ _ _).bind fun _ =>
    (Contest.respects_findCompetition _).bind fun x => (Contest.respects_seekTry _).bind fun _ =>
      a.respects_consult.bind fun _ => respects_pure id x

theorem Attempt.respects_check {seat : Seat} (a : Attempt) (x : Competition) :
    Respects seat id (a.check x) :=
  (Contest.respects_addressOf x).bind fun _ => Contest.respects_ask fun c d h => by
    rw [h.catalog_eq, h.client_eq]

/-! ## Queries -/

theorem Contest.snapshot_congr {c d : Contest} (h : d.directory = c.directory) :
    d.snapshot = c.snapshot := by
  funext t
  unfold snapshot
  rw [h]

/-- A snapshot is made without regard to the number of the try. -/
theorem Contest.map_snapshot (c : Contest) (ts : List (Try Nat)) :
    (ts.map c.snapshot).map (Snapshot.renumber blank) = (ts.map (Try.renumber blank)).map c.snapshot := by
  rw [List.map_map, List.map_map]
  rfl

/-- The seat that a query asks about, if it is about one seat only. -/
def Query.seat? : Query → Option Seat
  | .tryOf key => some key.seat
  | .puzzleTries x p _ _ => some ⟨x, p⟩
  | .playerTries x p => some ⟨x, p⟩
  | .mayView x p _ => some ⟨x, p⟩
  | .competitionTries _ => none
  | .player _ => none
  | .competition _ => none

/-- A query about a seat has the same answer in contests that look the same from there. -/
theorem Query.respects_run {seat : Seat} {q : Query} (hseat : q.seat? = some seat) :
    Respects seat (Answer.renumber blank) q.run := by
  have hprepare : Respects seat id q.prepare := by
    cases q with
    | tryOf key => exact Contest.respects_seekTry key
    | mayView competition player index => exact Contest.respects_seekView index
    | puzzleTries | competitionTries | playerTries | player | competition =>
      exact Contest.respects_session
  refine hprepare.bind fun _ => ?_
  cases q with
  | tryOf key =>
    have hkey : key.seat = seat := by simpa [seat?] using hseat
    exact (Contest.respects_demandTry hkey _).map fun t u htu => congrArg Answer.entry htu
  | puzzleTries x p puzzle index =>
    obtain rfl : ⟨x, p⟩ = seat := by simpa [seat?] using hseat
    have hread : Respects ⟨x, p⟩ (List.map (Try.renumber blank))
        (Contest.readPuzzleTries x p puzzle index) :=
      (Contest.respects_checkInteger index).bind fun _ => respects_view fun c d h => by
        rw [Store.map_ofPuzzle, Store.map_ofPuzzle, h.shown_eq]
    exact hread.map fun ts us h => congrArg Answer.entries h
  | playerTries x p =>
    obtain rfl : ⟨x, p⟩ = seat := by simpa [seat?] using hseat
    have hread : Respects ⟨x, p⟩ (List.map (Snapshot.renumber blank))
        (Contest.readPlayerTries x p) :=
      respects_view fun c d h => by
        rw [Contest.map_snapshot, Contest.map_snapshot, Store.map_ofPlayer, Store.map_ofPlayer,
          h.shown_eq, Contest.snapshot_congr h.directory_eq]
    exact hread.map fun ss ss' h => congrArg Answer.snapshots h
  | mayView x p index =>
    obtain rfl : ⟨x, p⟩ = seat := by simpa [seat?] using hseat
    exact (Contest.respects_readView x p index).map fun b b' h => by
      rw [show b' = b from h]
  | competitionTries x => exact absurd hseat (by simp [seat?])
  | player id' => exact absurd hseat (by simp [seat?])
  | competition id' => exact absurd hseat (by simp [seat?])

end PuzzleContest
