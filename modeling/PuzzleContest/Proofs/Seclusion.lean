import PuzzleContest.Proofs.Chronicle
import PuzzleContest.Proofs.Echo
import PuzzleContest.Proofs.Renumber

/-!
# Players and competitions do not interfere

Players take turns at the services of a contest, and the clock moves in between.  Without the turns of
the other seats, a seat gets the same answers, has the same tries and is told the same, up to the
numbers of tries: these say how many other tries there are, and so they may be others.

Main results:

- `Turn`, `Contest.Move`: what happens while turns are taken one after another.
- `Turn.knows_run`: every try in an answer is in the store.
- `Contest.Becomes.mirrors`, `Contest.Ready.mirrors_move`: a turn of another seat is not seen.
- `Contest.Paired.move`, `Contest.Paired.play`: with and without the turns of the others, the same is
  seen.
- `Contest.exists_secludes_season`: what the others do makes no difference but for the numbers of tries.
-/

namespace PuzzleContest

open PuzzleContest.Action PuzzleContest.Contest

/-! ## Turns -/

/-- What a player does in a turn: a call, or the opening of a puzzle with a level that cannot be
stored. -/
inductive Turn where
  | call (x : Call)
  | unstorable (o : Opening)

namespace Turn

variable {me : Holder} {seat : Seat} {c d : Contest}

/-- A turn while nobody else moves. -/
def run (me : Holder) : Turn → Action Answer
  | .call x => x.run me
  | .unstorable o => (o.playUnstorable me).map .document

/-- The seat that a turn is taken from, or that it asks about. -/
def seat? : Turn → Option Seat
  | .call x => x.seat?
  | .unstorable o => some o.key.seat

/-- What comes of a turn of a seat in two contests that look the same from there. -/
theorem echoes_run (me : Holder) {x : Turn} (hseat : x.seat? = some seat) (hc : c.AtRest)
    (hd : d.AtRest) (h : Mirrors seat c d) :
    Echoes seat (Answer.renumber blank) (x.run me c) (x.run me d) := by
  cases x with
  | call x => exact Call.echoes_run me hseat hc hd h
  | unstorable o =>
    obtain rfl : o.key.seat = seat := Option.some.inj hseat
    exact (Opening.echoes_of_middle (fun c d => o.echoes_runUnstorable me) hc hd h).map
      fun value value' hvalue => congrArg Answer.document hvalue

theorem run_around (me : Holder) (x : Turn) (hc : c.AtRest) : c.SameAround (x.run me c).2 := by
  have hme : ∀ key, c.Admits key me := fun key => admits_of_entries hc.entries_eq key me
  cases x with
  | call x => exact x.run_around hc.store hc.cascaded hme
  | unstorable o =>
    exact Opening.around_of_middle (fun c hs hc hme => o.runUnstorable_around hs hc hme)
      hc.store hc.cascaded (hme o.key)

/-- A turn changes nothing but tries of its own seat. -/
theorem run_becomes (me : Holder) (x : Turn) (hc : c.AtRest) :
    ∃ what, c.Becomes what (x.run me c).2 ∧
      ∀ key deal, what = some (key, deal) → x.seat? = some key.seat := by
  have hnone : c.Becomes none (x.run me c).2 → ∃ what, c.Becomes what (x.run me c).2 ∧
      ∀ key deal, what = some (key, deal) → x.seat? = some key.seat :=
    fun h => ⟨none, h, fun key deal heq => absurd heq (by simp)⟩
  have hsome : ∀ {key deal}, x.seat? = some key.seat →
      c.Becomes (some (key, deal)) (x.run me c).2 → ∃ what, c.Becomes what (x.run me c).2 ∧
        ∀ key deal, what = some (key, deal) → x.seat? = some key.seat := by
    intro key deal hseat h
    refine ⟨_, h, ?_⟩
    rintro _ _ ⟨rfl⟩
    exact hseat
  cases x with
  | unstorable o =>
    have h := Opening.becomes_of_middle (o := o) (fun c => o.runUnstorable_becomes me)
      hc.store hc.cascaded
    exact h.elim hnone (hsome rfl)
  | call x =>
    cases x with
    | trigger o => exact (o.run_becomes me hc.store hc.cascaded).elim hnone (hsome rfl)
    | submit s =>
      rcases s.run_becomes me hc.store hc.cascaded with ⟨-, -, h⟩ | ⟨-, -, h⟩
      · exact hnone h
      · exact hsome rfl h
    | visit o =>
      have h := Opening.becomes_of_middle (o := o) (fun c => o.run_becomes me) hc.store hc.cascaded
      exact h.elim hnone (hsome rfl)
    | answer a =>
      rcases a.play_becomes me hc.store hc.cascaded with ⟨-, -, h⟩ | ⟨v, -, h⟩
      · exact hnone h
      · exact hsome rfl h
    | ask q => exact hnone (.same (q.isRead_run.agrees c))

end Turn

/-! ## The tries in an answer -/

theorem Action.map_eq_ok {α β : Type} {f : α → β} {x : Action α} {c : Contest} {b : β}
    (h : (x.map f c).1 = .ok b) : ∃ a, (x c).1 = .ok a ∧ b = f a := by
  change (x c).1.map f = .ok b at h
  cases hresult : (x c).1 with
  | error e =>
    rw [hresult] at h
    exact absurd h (by simp [Except.map])
  | ok a =>
    rw [hresult] at h
    exact ⟨a, rfl, (Except.ok.inj h).symm⟩

/-- A read shows tries of the store only. -/
theorem Query.mem_of_read {q : Query} {c : Contest} {answer : Answer}
    (h : (q.read c).1 = .ok answer) : ∀ t ∈ answer.tries, t ∈ c.store.tries := by
  intro t ht
  cases q with
  | tryOf key =>
    rcases map_eq_ok h with ⟨row, hrow, rfl⟩
    have hfind := (demandTry_eq_ok (Prod.ext hrow rfl)).1
    rw [List.mem_singleton.1 ht]
    exact Store.mem_of_find? hfind
  | puzzleTries x p puzzle index =>
    rcases map_eq_ok h with ⟨rows, hrows, rfl⟩
    rcases bind_eq_ok (Prod.ext hrows rfl) with ⟨_, c', hcheck, hview⟩
    have hstore : c'.store = c.store := ((isRead_checkInteger index).agrees_of_eq hcheck).store_eq
    have hrows' : c'.store.ofPuzzle x p puzzle index = rows :=
      Except.ok.inj (congrArg Prod.fst hview)
    rw [← hstore]
    rw [← hrows'] at ht
    exact List.mem_of_mem_filter (List.mem_mergeSort.1 ht)
  | competitionTries x =>
    rcases map_eq_ok h with ⟨rows, ⟨rfl⟩, rfl⟩
    rcases List.mem_map.1 ht with ⟨_, hsnapshot, rfl⟩
    rcases List.mem_map.1 hsnapshot with ⟨row, hrow, rfl⟩
    exact List.mem_of_mem_filter (List.mem_mergeSort.1 hrow)
  | playerTries x p =>
    rcases map_eq_ok h with ⟨rows, ⟨rfl⟩, rfl⟩
    rcases List.mem_map.1 ht with ⟨_, hsnapshot, rfl⟩
    rcases List.mem_map.1 hsnapshot with ⟨row, hrow, rfl⟩
    exact List.mem_of_mem_filter (List.mem_mergeSort.1 hrow)
  | mayView x p index =>
    rcases map_eq_ok h with ⟨granted, -, rfl⟩
    exact absurd ht List.not_mem_nil
  | player id =>
    rcases map_eq_ok h with ⟨p, -, rfl⟩
    exact absurd ht List.not_mem_nil
  | competition id =>
    rcases map_eq_ok h with ⟨x, -, rfl⟩
    exact absurd ht List.not_mem_nil

namespace Turn

variable {me : Holder} {c : Contest}

/-- Every try in an answer is in the store. -/
theorem knows_run (me : Holder) {x : Turn} (hc : c.AtRest) {answer : Answer}
    (h : (x.run me c).1 = .ok answer) :
    ∀ t ∈ answer.tries, (x.run me c).2.store.Knows t.key t := by
  intro t ht
  cases x with
  | unstorable o =>
    rcases map_eq_ok h with ⟨value, -, rfl⟩
    exact absurd ht List.not_mem_nil
  | call x =>
    cases x with
    | trigger o =>
      rcases map_eq_ok h with ⟨u, hu, rfl⟩
      have hend : Deed.Since c (.opening o (.done (o.run me c).1)) (o.run me c).2 :=
        Opening.since_runFrom (Opening.since_arriving o hc.store hc.cascaded)
      have hknows : (o.run me c).2.store.Knows o.key u := hend.informed u hu
      rw [List.mem_singleton.1 ht]
      exact hknows.self
    | submit s =>
      rcases map_eq_ok h with ⟨u, hu, rfl⟩
      have hend : Deed.Since c (.submission s (.done (s.run me c).1)) (s.run me c).2 :=
        Submission.since_runFrom (Submission.since_arriving s hc.store hc.cascaded)
      have hknows : (s.run me c).2.store.Knows s.key u := hend.informed u hu
      rw [List.mem_singleton.1 ht]
      exact hknows.self
    | visit o =>
      rcases map_eq_ok h with ⟨value, -, rfl⟩
      exact absurd ht List.not_mem_nil
    | answer a =>
      rcases map_eq_ok h with ⟨v, hv, rfl⟩
      have hfind := Attempt.find?_play hc.store hc.cascaded hv
      rw [List.mem_singleton.1 ht]
      exact ⟨rfl, v.entry, (Store.key_of_find? hfind).symm ▸ hfind, rfl⟩
    | ask q =>
      have hresult : q.run c = (.ok answer, (q.run c).2) := Prod.ext h rfl
      rcases bind_eq_ok hresult with ⟨_, c', hprepare, hread⟩
      have hprepared : c'.store = c.store := (q.isRead_prepare.agrees_of_eq hprepare).store_eq
      have hmem := Query.mem_of_read (congrArg Prod.fst hread) t ht
      change (q.run c).2.store.Knows t.key t
      rw [(q.isRead_run.agrees c).store_eq, ← hprepared]
      have hsound : c'.store.Sound := hprepared.symm ▸ hc.store
      exact hsound.knows hmem

end Turn

/-! ## Moves -/

namespace Contest

variable {me : Holder} {seat : Seat} {c c' d : Contest}

/-- What happens while turns are taken one after another. -/
inductive Move where
  /-- The clock is moved. -/
  | clock (now : Moment)
  /-- A turn is taken, and the storage meets these faults meanwhile. -/
  | turn (me : Holder) (faults : Schedule) (x : Turn)

/-- The contest with the faults that a turn may meet. -/
def facing (c : Contest) (faults : Schedule) : Contest := { c with schedule := faults }

/-- What a move comes to, and the contest after it.  Faults that were not met are gone. -/
def move (c : Contest) : Move → Option (Except Failure Answer) × Contest
  | .clock now => (none, { c with now := now })
  | .turn me faults x =>
    let y := x.run me (c.facing faults)
    (some y.1, y.2.facing {})

/-- Whether a move is a turn of a seat, or no turn. -/
def Move.concerns (seat : Seat) : Move → Bool
  | .clock _ => true
  | .turn _ _ x => x.seat? = some seat

/-- The contest after a list of moves. -/
def play (c : Contest) (moves : List Move) : Contest := moves.foldl (fun c m => (c.move m).2) c

/-- What a seat is answered in the course of a list of moves. -/
def answersTo (seat : Seat) (c : Contest) : List Move → List (Except Failure Answer)
  | [] => []
  | m :: rest =>
    (if m.concerns seat then (c.move m).1.toList else []) ++ answersTo seat (c.move m).2 rest

/-- A contest between turns, in which no fault is to come. -/
structure Ready (c : Contest) : Prop where
  told : c.Told
  entries_eq : c.locks.entries = []
  schedule_eq : c.schedule = {}

theorem Ready.atRest (h : c.Ready) : c.AtRest := ⟨h.told.store, h.told.cascaded, h.entries_eq⟩

theorem AtRest.facing (h : c.AtRest) (faults : Schedule) : (c.facing faults).AtRest :=
  ⟨h.store, h.cascaded, h.entries_eq⟩

theorem Told.facing (h : c.Told) (faults : Schedule) : (c.facing faults).Told :=
  ⟨h.store, h.cascaded, h.tale, h.known⟩

theorem facing_facing (c : Contest) (faults faults' : Schedule) :
    (c.facing faults).facing faults' = c.facing faults' := rfl

theorem Ready.facing_eq (h : c.Ready) : c.facing {} = c := by
  unfold Contest.facing
  rw [← h.schedule_eq]

theorem Ready.move (h : c.Ready) (m : Move) : (c.move m).2.Ready := by
  cases m with
  | clock now =>
    exact ⟨⟨h.told.store, h.told.cascaded, h.told.tale, h.told.known⟩, h.entries_eq, h.schedule_eq⟩
  | turn me faults x =>
    have hrest := h.atRest.facing faults
    rcases x.run_becomes me hrest with ⟨what, hbecomes, -⟩
    have htold := (h.told.facing faults).becomes hbecomes
    exact ⟨htold.facing {}, (x.run_around me hrest).entries_eq.trans h.entries_eq, rfl⟩

/-! ## Turns of others -/

/-- A change on another seat is not seen. -/
theorem Becomes.mirrors {what : Option (Try.Key × Deal)} (h : c.Becomes what c')
    (hs : c.store.Sound) (haround : c.SameAround c')
    (hne : ∀ key deal, what = some (key, deal) → key.seat ≠ seat) (faults : Schedule) :
    Mirrors seat (c.facing faults) (c'.facing faults) := by
  have hseen : c'.store.shown seat = c.store.shown seat ∧ c'.told seat = c.told seat := by
    cases h with
    | same hagrees =>
      unfold told newsOf
      rw [hagrees.store_eq, hagrees.outbox_eq]
      exact ⟨rfl, rfl⟩
    | @changed _ key deal tidings p hdirectory hplan hnow hmoment hplayer hchange houtbox =>
      have hkey := hne key deal rfl
      refine ⟨hchange.shown_of_ne hs hkey, ?_⟩
      have hnone : (tidings.map (Store.Tiding.announcement p)).filter
          (fun a => decide (a.snapshot.entry.key.seat = seat)) = [] := by
        rw [List.filter_eq_nil_iff]
        intro a ha hseat
        rcases List.mem_map.1 ha with ⟨n, hn, rfl⟩
        exact hkey ((hchange.seat_of_mem hn).symm.trans (of_decide_eq_true hseat))
      unfold told newsOf
      rw [houtbox, List.filter_append, hnone, List.append_nil]
  exact ⟨h.directory_eq, h.plan_eq, h.now_eq, haround.catalog_eq, haround.client_eq, rfl,
    hseen.1, hseen.2⟩

/-- A move that does not concern a seat is not seen there. -/
theorem Ready.mirrors_move (h : c.Ready) {m : Move} (hm : m.concerns seat = false) :
    Mirrors seat c (c.move m).2 := by
  cases m with
  | clock now => exact absurd hm (by simp [Move.concerns])
  | turn me faults x =>
    have hrest := h.atRest.facing faults
    rcases x.run_becomes me hrest with ⟨what, hbecomes, hown⟩
    have hne : ∀ key deal, what = some (key, deal) → key.seat ≠ seat := by
      intro key deal hwhat hkey
      have hseat := hown key deal hwhat
      rw [hkey] at hseat
      simp [Move.concerns, hseat] at hm
    have hmirrors := hbecomes.mirrors hrest.store (x.run_around me hrest) hne {}
    rw [facing_facing, h.facing_eq] at hmirrors
    exact hmirrors

/-! ## With and without the others -/

/-- Two contests between turns that look the same from a seat. -/
structure Paired (seat : Seat) (c d : Contest) : Prop where
  ready : c.Ready
  ready' : d.Ready
  mirrors : Mirrors seat c d

/-- A move that concerns the seat comes to the same in both contests. -/
theorem Paired.move (h : Paired seat c d) {m : Move} (hm : m.concerns seat = true) :
    Paired seat (c.move m).2 (d.move m).2 ∧
      (d.move m).1.map (Except.map (Answer.renumber blank)) =
        (c.move m).1.map (Except.map (Answer.renumber blank)) := by
  cases m with
  | clock now =>
    have hmirrors := h.mirrors
    refine ⟨⟨h.ready.move _, h.ready'.move _, ?_⟩, rfl⟩
    exact ⟨hmirrors.directory_eq, hmirrors.plan_eq, rfl, hmirrors.catalog_eq,
      hmirrors.client_eq, hmirrors.schedule_eq, hmirrors.shown_eq, hmirrors.told_eq⟩
  | turn me faults x =>
    have hseat : x.seat? = some seat := by simpa [Move.concerns] using hm
    have hechoes := x.echoes_run me hseat (h.ready.atRest.facing faults)
      (h.ready'.atRest.facing faults) (h.mirrors.scheduled faults)
    exact ⟨⟨h.ready.move _, h.ready'.move _, hechoes.mirrors.scheduled {}⟩,
      congrArg some hechoes.result_eq⟩

/-- With and without the turns of the others, a seat sees the same. -/
theorem Paired.play (h : Paired seat c d) (moves : List Move) :
    Paired seat (c.play moves) (d.play (moves.filter (·.concerns seat))) ∧
      (answersTo seat c moves).map (Except.map (Answer.renumber blank)) =
        (answersTo seat d (moves.filter (·.concerns seat))).map
          (Except.map (Answer.renumber blank)) := by
  induction moves generalizing c d with
  | nil => exact ⟨h, rfl⟩
  | cons m rest ih =>
    by_cases hm : m.concerns seat = true
    · rcases h.move hm with ⟨hnext, hanswer⟩
      rcases ih hnext with ⟨hplay, hanswers⟩
      rw [List.filter_cons_of_pos hm]
      refine ⟨hplay, ?_⟩
      simp only [answersTo, if_pos hm, List.map_append, hanswers, ← Option.toList_map, hanswer]
    · have hnot : m.concerns seat = false := by simpa using hm
      have hnext : Paired seat (c.move m).2 d :=
        ⟨h.ready.move m, h.ready', (h.ready.mirrors_move hnot).symm.trans h.mirrors⟩
      rcases ih hnext with ⟨hplay, hanswers⟩
      rw [List.filter_cons_of_neg hm]
      refine ⟨hplay, ?_⟩
      simp only [answersTo, if_neg hm, List.nil_append, hanswers]

/-! ## Tries that stay known -/

theorem Becomes.knows {what : Option (Try.Key × Deal)} (h : c.Becomes what c') (hs : c.store.Sound)
    {key : Try.Key} {t : Try Nat} (hknows : c.store.Knows key t) : c'.store.Knows key t := by
  cases h with
  | same hagrees => exact hagrees.store_eq ▸ hknows
  | changed hdirectory hplan hnow hmoment hplayer hchange houtbox =>
    rcases hknows with ⟨hkey, row, hrow, hid⟩
    rcases hchange.id_kept hs hrow with ⟨row', hrow', hid'⟩
    exact ⟨hkey, row', hrow', hid'.trans hid⟩

theorem Ready.knows_move (h : c.Ready) (m : Move) {key : Try.Key} {t : Try Nat}
    (hknows : c.store.Knows key t) : (c.move m).2.store.Knows key t := by
  cases m with
  | clock now => exact hknows
  | turn me faults x =>
    have hrest := h.atRest.facing faults
    rcases x.run_becomes me hrest with ⟨what, hbecomes, -⟩
    exact hbecomes.knows hrest.store hknows

/-- A try that is known stays known. -/
theorem Ready.knows_play (h : c.Ready) (moves : List Move) {key : Try.Key} {t : Try Nat}
    (hknows : c.store.Knows key t) : (c.play moves).store.Knows key t := by
  induction moves generalizing c with
  | nil => exact hknows
  | cons m rest ih => exact ih (h.move m) (h.knows_move m hknows)

theorem Ready.play (h : c.Ready) (moves : List Move) : (c.play moves).Ready := by
  induction moves generalizing c with
  | nil => exact h
  | cons m rest ih => exact ih (h.move m)

/-- Every try in an answer along the way is known in the end. -/
theorem Ready.knows_answersTo (h : c.Ready) (seat : Seat) (moves : List Move) {answer : Answer}
    (hanswer : .ok answer ∈ answersTo seat c moves) :
    ∀ t ∈ answer.tries, (c.play moves).store.Knows t.key t := by
  induction moves generalizing c with
  | nil => exact absurd hanswer List.not_mem_nil
  | cons m rest ih =>
    intro t ht
    rcases List.mem_append.1 hanswer with hhead | hrest
    · have hmove : (c.move m).1 = some (.ok answer) := by
        by_cases hm : m.concerns seat = true
        · simpa [hm] using hhead
        · simp [hm] at hhead
      have hknows : (c.move m).2.store.Knows t.key t := by
        cases m with
        | clock now => exact absurd hmove (by simp [Contest.move])
        | turn me faults x =>
          exact x.knows_run me (h.atRest.facing faults) (Option.some.inj hmove) t ht
      exact (h.move m).knows_play rest hknows
    · exact ih (h.move m) hrest t ht

/-! ## Seclusion -/

/-- Without the turns of the others a seat gets the same answers, has the same tries and is told the
same, with the numbers of tries changed. -/
structure Secludes (c : Contest) (seat : Seat) (moves : List Move) (f : Nat → Nat) : Prop where
  injective : Function.Injective f
  answers_eq : answersTo seat c moves =
    (answersTo seat c (moves.filter (·.concerns seat))).map (Except.map (Answer.renumber f))
  tries_eq : (c.play moves).store.ofSeat seat =
    ((c.play (moves.filter (·.concerns seat))).store.ofSeat seat).map (Try.renumber f)
  news_eq : (c.play moves).newsOf seat =
    ((c.play (moves.filter (·.concerns seat))).newsOf seat).map (Announcement.renumber f)

theorem Ready.exists_secludes (h : c.Ready) (seat : Seat) (moves : List Move) :
    ∃ f, c.Secludes seat moves f := by
  have hpaired : Paired seat c c := ⟨h, h, rfl, rfl, rfl, rfl, rfl, rfl, rfl, rfl⟩
  rcases hpaired.play moves with ⟨hplay, hanswers⟩
  have hs := hplay.ready'.told.store
  have hs' := hplay.ready.told.store
  refine ⟨(c.play moves).store.numberIn (c.play (moves.filter (·.concerns seat))).store,
    Store.numberIn_injective hs hs', ?_, ?_, ?_⟩
  · refine eq_map_of_map_eq hanswers fun x hx y hy hxy => ?_
    rcases cases_of_map_eq hxy with ⟨e, rfl, rfl⟩ | ⟨b, a, rfl, rfl, hab⟩
    · rfl
    · exact congrArg Except.ok (Answer.eq_renumber hs (h.knows_answersTo seat moves hx)
        (h.knows_answersTo seat _ hy) hab)
  · refine eq_map_of_map_eq hplay.mirrors.shown_eq.symm fun t ht u hu htu => ?_
    exact Try.eq_renumber hs (hs'.knows (List.mem_of_mem_filter ht))
      (hs.knows (List.mem_of_mem_filter hu)) htu
  · refine eq_map_of_map_eq hplay.mirrors.told_eq.symm fun a ha b hb hab => ?_
    have hknown : ∀ {c : Contest}, c.Ready → ∀ a ∈ c.newsOf seat,
        c.store.Knows a.snapshot.entry.key a.snapshot.entry :=
      fun h a ha => ⟨rfl, h.told.known a (List.mem_of_mem_filter ha)⟩
    exact Announcement.eq_renumber hs (hknown hplay.ready a ha) (hknown hplay.ready' b hb) hab

/-- A contest in which nobody uses a lock and no fault is to come. -/
def idle (c : Contest) : Contest := { c with locks := {}, schedule := {} }

/-- Players and competitions do not interfere: whatever has happened before, what the others do makes
no difference to a seat but for the numbers of tries. -/
theorem exists_secludes_season (c : Contest) (before : List Event) (seat : Seat)
    (moves : List Move) : ∃ f, (c.bare.season before).idle.Secludes seat moves f := by
  have htold := (told_bare c).season before
  have hready : (c.bare.season before).idle.Ready :=
    ⟨⟨htold.store, htold.cascaded, htold.tale, htold.known⟩, rfl, rfl⟩
  exact hready.exists_secludes seat moves

/-- A try gets another number where somebody else has opened a puzzle before. -/
example :
    let guest : Player := { id := "guest", firstName := "First", lastName := "Last" }
    let c : Contest := { sample with directory.players := guest :: sample.directory.players }
    let moves : List Move := [
      .turn (.caller 0) {} (.call (.trigger { sampleOpening with player := "guest" })),
      .turn (.caller 1) {} (.call (.trigger sampleOpening))]
    let seat := sampleOpening.key.seat
    ((c.play moves).store.ofSeat seat).map (·.id) = [1] ∧
      ((c.play (moves.filter (·.concerns seat))).store.ofSeat seat).map (·.id) = [0] := by
  decide +kernel

end Contest

end PuzzleContest
