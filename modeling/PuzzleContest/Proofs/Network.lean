import PuzzleContest.Proofs.Crowd
import PuzzleContest.Proofs.Solo

/-!
# Processes that share their tries

A network is any number of processes with one database, each with an attempt service of its own.  Each
process has its own clock, locks and announcements, and openings that share these; the tries are common
to all.  In each move one of the openings takes its next atomic step, while the database does whatever
it likes, or some other process makes or changes a try.

Main results:

- `Network.run`: the state after a list of moves.
- `Network.Sound`: what openings remember is true, and no try is announced as made without being there.
- `Network.Sound.step`, `Network.sound_run`: every move keeps a network sound, and so does every run.
- `Network.OneTry`: all openings of a key come to one try, which is announced as made once at most.
-/

namespace PuzzleContest

/-! ## What the others leave -/

namespace Store

variable {s s' s'' : Store} {key : Try.Key} {t row : Try Nat} {level : String} {start : Moment}

/-- Every try is still there under its key and its number. -/
def Remembers (s s' : Store) : Prop :=
  ∀ key row, s.find? key = some row → ∃ row', s'.find? key = some row' ∧ row'.id = row.id

theorem Remembers.refl (s : Store) : s.Remembers s := fun _ row h => ⟨row, h, rfl⟩

theorem Remembers.trans (h : s.Remembers s') (h' : s'.Remembers s'') : s.Remembers s'' := by
  intro key row hrow
  rcases h key row hrow with ⟨row', hrow', hid⟩
  rcases h' key row' hrow' with ⟨row'', hrow'', hid'⟩
  exact ⟨row'', hrow'', hid'.trans hid⟩

theorem remembers_add (h : s.add? key level start = some (t, s')) : s.Remembers s' := by
  intro k row hrow
  have hne : k ≠ key := by
    rintro rfl
    rw [(add?_eq_some_iff.1 h).1] at hrow
    exact absurd hrow (by simp)
  exact ⟨row, by rw [find?_add h, if_neg hne, hrow], rfl⟩

theorem remembers_replace (hs : s.Sound) (hrow : s.find? t.key = some row) (hid : t.id = row.id) :
    s.Remembers (s.replace t) := by
  intro k old hold
  rw [find?_replace hs hrow hid]
  by_cases hk : k = t.key
  · rw [hk, hrow, Option.some.injEq] at hold
    exact ⟨t, if_pos hk, hid.trans (congrArg _ hold)⟩
  · exact ⟨old, by rw [if_neg hk, hold], rfl⟩

/-- What was known of a try stays known. -/
theorem Knows.remembers (h : s.Knows key t) (hs : s.Remembers s') : s'.Knows key t := by
  rcases h with ⟨hkey, row, hrow, hid⟩
  rcases hs key row hrow with ⟨row', hrow', hid'⟩
  exact ⟨hkey, row', hrow', hid'.trans hid⟩

end Store

theorem Opening.Phase.Informed.remembers {o : Opening} {directory : Directory} {s s' : Store}
    {phase : Phase} (h : phase.Informed o directory s) (hs : s.Remembers s') :
    phase.Informed o directory s' := by
  cases phase with
  | closing p result | leaving p result =>
    exact ⟨h.1, fun found hfound => (h.2 found hfound).remembers hs⟩
  | done result => exact fun t ht => (h t ht).remembers hs
  | arriving | inquiring | approaching | greeting | queueing | waiting | looking | reading |
    inserting | returning | rereading | recovering | salvaging => exact h

namespace Deed

variable {me : Holder} {d d' : Deed} {c c' : Contest}

theorem Stride.remembers (h : Stride me d c d' c') (hs : c.store.Sound) :
    c.store.Remembers c'.store := by
  cases h with
  | read | entered | admitted | withdrawn | left => exact .refl _
  | committed _ _ _ _ _ _ _ hchange _ => exact fun key row hrow => hchange.id_kept hs hrow

/-- A step makes a try, which it has yet to announce, or announces it, or neither. -/
theorem Stride.made_eq (h : Stride me d c d' c') (hs : c.store.Sound) (key : Try.Key) :
    Crowd.creations c'.outbox key + Store.madeOf key d'.tidings + (c.store.has key).toNat =
      Crowd.creations c.outbox key + Store.madeOf key d.tidings + (c'.store.has key).toNat := by
  cases h with
  | read hkeeps | admitted hkeeps => rw [hkeeps.tidings_eq]
  | entered hkeeps | withdrawn hkeeps =>
    rw [hkeeps.tidings_eq]
    rfl
  | committed _ _ _ htidings _ _ _ hchange _ =>
    have hnone : Store.madeOf key d.tidings = 0 := by rw [htidings]; rfl
    have hhas := hchange.has_eq hs key
    simp only [hnone]
    omega
  | left _ _ _ htidings _ _ hplayer =>
    have hnone : Store.madeOf key d'.tidings = 0 := by rw [htidings]; rfl
    simp only [Crowd.creations_append, hnone]
    omega

end Deed

/-! ## Networks -/

/-- A process: what it has apart from the tries, and its openings. -/
structure Station where
  contest : Contest
  openings : List (Opening × Opening.Phase)

namespace Station

/-- A process after one of its openings has come to another phase. -/
def move (s : Station) (i : Nat) (o : Opening) (phase : Opening.Phase) (c : Contest) : Station :=
  ⟨c, s.openings.set i (o, phase)⟩

/-- How often a process has announced that a try of a key was made, or is about to do so. -/
def made (key : Try.Key) (s : Station) : Nat :=
  Crowd.creations s.contest.outbox key +
    (s.openings.map fun q => Store.madeOf key q.2.tidings).sum

theorem made_move {s : Station} {i : Nat} {o : Opening} {phase : Opening.Phase}
    (h : s.openings[i]? = some (o, phase)) (phase' : Opening.Phase) (c : Contest) (key : Try.Key) :
    (s.move i o phase' c).made key + Crowd.creations s.contest.outbox key +
        Store.madeOf key phase.tidings =
      s.made key + Crowd.creations c.outbox key + Store.madeOf key phase'.tidings := by
  have hset := Crowd.sum_map_set (fun q : Opening × Opening.Phase => Store.madeOf key q.2.tidings) h
    (o, phase')
  simp only [made, move] at hset ⊢
  omega

end Station

/-- Processes that share their tries. -/
structure Network where
  store : Store := {}
  stations : List Station

namespace Network

/-- What happens next. -/
inductive Move where
  /-- An opening of a process takes its next atomic step, in which the database does as scheduled. -/
  | turn (p i : Nat) (schedule : Schedule)
  /-- The end of a transaction that has found a try breaks. -/
  | lapse (p i : Nat) (fault : Fault)
  /-- The clock and the locks of a process are set. -/
  | around (p : Nat) (now : Moment) (locks : Lock.Registry Try.Key Holder)
  /-- Some other process makes a try, unless there is one of its key. -/
  | made (key : Try.Key) (level : String) (start : Moment)
  /-- Some other process changes a try, which keeps its key and its number. -/
  | changed (t : Try Nat)

/-- Processes with openings that have not begun, no tries, and nothing announced. -/
def begin (stations : List (Contest × List Opening)) : Network where
  stations := stations.map fun s =>
    ⟨{ s.1 with outbox := [] }, s.2.map fun o => (o, .arriving)⟩

/-- An opening with its phase and its process. -/
def at? (w : Network) (p i : Nat) : Option (Station × Opening × Opening.Phase) :=
  w.stations[p]?.bind fun s => s.openings[i]?.map fun q => (s, q)

/-- What a process sees when the database does as scheduled. -/
def view (w : Network) (s : Station) (schedule : Schedule) : Contest :=
  { s.contest with store := w.store, schedule := schedule }

/-- The state after one move.  A move that cannot be made changes nothing. -/
def step (w : Network) : Move → Network
  | .turn p i schedule =>
    match w.at? p i with
    | some (s, o, phase) =>
      let next := o.advance (.caller i) phase (w.view s schedule)
      ⟨next.2.store, w.stations.set p (s.move i o next.1 next.2)⟩
    | none => w
  | .lapse p i fault =>
    match w.at? p i with
    | some (s, o, .closing q (.ok ⟨_, false⟩)) =>
      ⟨w.store, w.stations.set p (s.move i o (.closing q (.error fault.failure)) s.contest)⟩
    | _ => w
  | .around p now locks =>
    match w.stations[p]? with
    | some s =>
      ⟨w.store, w.stations.set p { s with contest := { s.contest with now := now, locks := locks } }⟩
    | none => w
  | .made key level start =>
    if Store.holds key.index then
      match w.store.add? key level start with
      | some (_, store) => { w with store := store }
      | none => w
    else w
  | .changed t =>
    match w.store.find? t.key with
    | some row => if t.id = row.id then { w with store := w.store.replace t } else w
    | none => w

/-- The state after a list of moves. -/
def run (w : Network) (moves : List Move) : Network := moves.foldl step w

/-- How often it was announced that a try of a key was made, or is about to be. -/
def made (w : Network) (key : Try.Key) : Nat := (w.stations.map (Station.made key)).sum

/-- What holds between the moves of a network. -/
structure Sound (w : Network) : Prop where
  store : w.store.Sound
  /-- What openings remember is true. -/
  informed : ∀ (p i : Nat) (s : Station) (o : Opening) (phase : Opening.Phase),
    w.at? p i = some (s, o, phase) → phase.Informed o s.contest.directory w.store
  /-- No try is announced as made without being there. -/
  made_le : ∀ key, w.made key ≤ (w.store.has key).toNat

variable {w : Network} {p i p' i' : Nat} {s s' x : Station} {o : Opening} {phase phase' : Opening.Phase}

theorem at?_eq_some_iff :
    w.at? p i = some (s, o, phase) ↔ w.stations[p]? = some s ∧ s.openings[i]? = some (o, phase) := by
  unfold at?
  rw [Option.bind_eq_some_iff]
  constructor
  · rintro ⟨u, hu, hq⟩
    rcases Option.map_eq_some_iff.1 hq with ⟨q, hq, heq⟩
    rcases Prod.mk.inj heq with ⟨rfl, rfl⟩
    exact ⟨hu, hq⟩
  · rintro ⟨hs, hq⟩
    exact ⟨s, hs, by rw [hq]; rfl⟩

theorem sound_begin (stations : List (Contest × List Opening)) : (begin stations).Sound where
  store := Store.sound_empty
  informed := by
    intro p i s o phase hat
    rcases at?_eq_some_iff.1 hat with ⟨hs, hq⟩
    simp only [begin, List.getElem?_map, Option.map_eq_some_iff] at hs
    rcases hs with ⟨u, -, rfl⟩
    simp only [List.getElem?_map, Option.map_eq_some_iff, Prod.mk.injEq] at hq
    rcases hq with ⟨o', -, -, rfl⟩
    trivial
  made_le := by
    intro key
    have hnone : ((begin stations).stations.map (Station.made key)).sum = 0 := by
      rw [List.sum_eq_zero_iff_forall_eq_nat]
      intro n hn
      simp only [begin, List.map_map, List.mem_map, Function.comp] at hn
      rcases hn with ⟨u, -, rfl⟩
      simp only [Station.made, Crowd.creations, List.countP_nil, List.map_map, Nat.zero_add]
      rw [List.sum_eq_zero_iff_forall_eq_nat]
      intro n hn
      rcases List.mem_map.1 hn with ⟨o, -, rfl⟩
      rfl
    unfold made
    rw [hnone]
    exact Nat.zero_le _

/-! ## Moves keep a network sound -/

/-- After one process was replaced, an opening is one of this process, or it is as it was. -/
theorem at?_set_cases {store : Store}
    (h : at? ⟨store, w.stations.set p s'⟩ p' i' = some (x, o, phase)) :
    p' = p ∧ x = s' ∧ s'.openings[i']? = some (o, phase) ∨
      p' ≠ p ∧ w.at? p' i' = some (x, o, phase) := by
  rcases at?_eq_some_iff.1 h with ⟨hx, hq⟩
  rcases Crowd.getElem?_set_cases hx with ⟨hp, rfl⟩ | ⟨hp, hold⟩
  · exact .inl ⟨hp, rfl, hq⟩
  · exact .inr ⟨hp, at?_eq_some_iff.2 ⟨hold, hq⟩⟩

/-- After one opening has moved, an opening is that one, or it is as it was in a process with the same
directory. -/
theorem at?_move_cases {store : Store} {c : Contest} {o' : Opening} {phase'' : Opening.Phase}
    (h : w.at? p i = some (s, o, phase)) (hdirectory : c.directory = s.contest.directory)
    (h' : at? ⟨store, w.stations.set p (s.move i o phase' c)⟩ p' i' = some (x, o', phase'')) :
    (p' = p ∧ i' = i ∧ x.contest = c ∧ o' = o ∧ phase'' = phase') ∨
      ¬(p' = p ∧ i' = i) ∧ ∃ old, w.at? p' i' = some (old, o', phase'') ∧
        x.contest.directory = old.contest.directory := by
  rcases at?_eq_some_iff.1 h with ⟨hs, -⟩
  rcases at?_set_cases h' with ⟨rfl, rfl, hq⟩ | ⟨hp, hold⟩
  · rcases Crowd.getElem?_set_cases hq with ⟨rfl, heq⟩ | ⟨hi, hold⟩
    · rcases Prod.mk.inj heq with ⟨rfl, rfl⟩
      exact .inl ⟨rfl, rfl, rfl, rfl, rfl⟩
    · exact .inr ⟨fun hsame => hi hsame.2, s, at?_eq_some_iff.2 ⟨hs, hold⟩, hdirectory⟩
  · exact .inr ⟨fun hsame => hp hsame.1, x, hold, rfl⟩

theorem made_set (hs : w.stations[p]? = some s) (store : Store) (s' : Station) (key : Try.Key) :
    made ⟨store, w.stations.set p s'⟩ key + s.made key = w.made key + s'.made key :=
  Crowd.sum_map_set (Station.made key) hs s'

/-- An opening that has moved leaves a sound network, if it has announced nothing that is not there. -/
theorem Sound.move (hw : w.Sound) (h : w.at? p i = some (s, o, phase)) {store : Store} {c : Contest}
    (hstore : store.Sound) (hremembers : w.store.Remembers store)
    (hdirectory : c.directory = s.contest.directory) (hinformed : phase'.Informed o c.directory store)
    (hmade : ∀ key, Crowd.creations c.outbox key + Store.madeOf key phase'.tidings +
      (w.store.has key).toNat ≤ Crowd.creations s.contest.outbox key +
        Store.madeOf key phase.tidings + (store.has key).toNat) :
    Sound ⟨store, w.stations.set p (s.move i o phase' c)⟩ where
  store := hstore
  informed := by
    intro p' i' x o' phase'' hat
    rcases at?_move_cases h hdirectory hat with ⟨-, -, rfl, rfl, rfl⟩ | ⟨-, old, hold, heq⟩
    · exact hinformed
    · rw [heq]
      exact (hw.informed p' i' old o' phase'' hold).remembers hremembers
  made_le := by
    intro key
    rcases at?_eq_some_iff.1 h with ⟨hs, hq⟩
    have hset := made_set hs store (s.move i o phase' c) key
    have hmoved := Station.made_move hq phase' c key
    have hbefore := hw.made_le key
    have hstep := hmade key
    change made _ key ≤ (store.has key).toNat
    omega

/-- Whatever the database does, an opening of a sound network steps well. -/
theorem Sound.stepsWell (hw : w.Sound) (hat : w.at? p i = some (s, o, phase)) (schedule : Schedule) :
    Opening.StepsWell (.caller i) o phase (w.view s schedule) := by
  have hinformed : phase.Informed o (w.view s schedule).directory (w.view s schedule).store :=
    hw.informed p i s o phase hat
  exact Opening.stepsWell hinformed

theorem Sound.turn (hw : w.Sound) (p i : Nat) (schedule : Schedule) :
    (w.step (.turn p i schedule)).Sound := by
  cases hat : w.at? p i with
  | none =>
    simp only [step, hat]
    exact hw
  | some q =>
    rcases q with ⟨s, o, phase⟩
    simp only [step, hat]
    rcases hw.stepsWell hat schedule with ⟨hstride, hinformed'⟩
    refine hw.move hat (hstride.sound hw.store) (hstride.remembers hw.store) hstride.directory_eq
      hinformed' fun key => ?_
    exact Nat.le_of_eq (hstride.made_eq hw.store key)

/-- A process that only sets its clock and its locks leaves a sound network. -/
theorem Sound.around (hw : w.Sound) (hs : w.stations[p]? = some s) {c : Contest}
    (hdirectory : c.directory = s.contest.directory) (houtbox : c.outbox = s.contest.outbox) :
    Sound ⟨w.store, w.stations.set p { s with contest := c }⟩ where
  store := hw.store
  informed := by
    intro p' i' x o phase hat
    rcases at?_set_cases hat with ⟨rfl, rfl, hq⟩ | ⟨-, hold⟩
    · change phase.Informed o c.directory w.store
      rw [hdirectory]
      exact hw.informed p' i' s o phase (at?_eq_some_iff.2 ⟨hs, hq⟩)
    · exact hw.informed p' i' x o phase hold
  made_le := by
    intro key
    have hset := made_set hs w.store { s with contest := c } key
    have hsame : Station.made key { s with contest := c } = s.made key := by
      simp only [Station.made, houtbox]
    have hbefore := hw.made_le key
    change made _ key ≤ (w.store.has key).toNat
    omega

/-- Another process that forgets no try leaves a sound network. -/
theorem Sound.elsewhere (hw : w.Sound) {store : Store} (hstore : store.Sound)
    (hremembers : w.store.Remembers store) : Sound { w with store := store } where
  store := hstore
  informed p i s o phase hat := (hw.informed p i s o phase hat).remembers hremembers
  made_le key := by
    refine Nat.le_trans (hw.made_le key) ?_
    cases hfind : w.store.find? key with
    | none => simp [Store.has, hfind]
    | some row =>
      rcases hremembers key row hfind with ⟨row', hrow', -⟩
      simp [Store.has, hfind, hrow']

/-- Every move keeps a network sound. -/
theorem Sound.step (hw : w.Sound) (move : Move) : (w.step move).Sound := by
  cases move with
  | turn p i schedule => exact hw.turn p i schedule
  | lapse p i fault =>
    simp only [Network.step]
    split
    · rename_i s o q t hat
      have hinformed : (Opening.Phase.closing q (.error fault.failure)).Informed o
          s.contest.directory w.store := ⟨(hw.informed p i s o _ hat).1, by simp⟩
      exact hw.move hat hw.store (.refl _) rfl hinformed fun key => Nat.le_refl _
    · exact hw
  | around p now locks =>
    cases hs : w.stations[p]? with
    | none =>
      simp only [Network.step, hs]
      exact hw
    | some s =>
      simp only [Network.step, hs]
      exact hw.around hs rfl rfl
  | made key level start =>
    simp only [Network.step]
    split
    · rename_i hindex
      split
      · rename_i t store hadd
        exact hw.elsewhere (hw.store.add hindex hadd) (Store.remembers_add hadd)
      · exact hw
    · exact hw
  | changed t =>
    simp only [Network.step]
    split
    · rename_i row hrow
      split
      · rename_i hid
        exact hw.elsewhere (hw.store.replace hrow hid) (Store.remembers_replace hw.store hrow hid)
      · exact hw
    · exact hw

theorem Sound.run (hw : w.Sound) (moves : List Move) : (w.run moves).Sound := by
  induction moves generalizing w with
  | nil => exact hw
  | cons move rest ih => exact ih (hw.step move)

/-- Whatever openings and other processes do, a network that begins without tries stays sound. -/
theorem sound_run (stations : List (Contest × List Opening)) (moves : List Move) :
    ((begin stations).run moves).Sound := (sound_begin stations).run moves

/-! ## One try -/

/-- All openings of a key come to one try, and all processes together have announced once at most that it
was made. -/
structure OneTry (w : Network) (key : Try.Key) : Prop where
  announced_le : (w.stations.map fun s => Crowd.creations s.contest.outbox key).sum ≤ 1
  same_id : ∀ (p i p' i' : Nat) (s s' : Station) (o o' : Opening) (t t' : Try Nat),
    w.at? p i = some (s, o, .done (.ok t)) → w.at? p' i' = some (s', o', .done (.ok t')) →
      o.key = key → o'.key = key → t.id = t'.id

theorem Sound.oneTry (hw : w.Sound) (key : Try.Key) : w.OneTry key where
  announced_le := by
    have hle : (w.stations.map fun s => Crowd.creations s.contest.outbox key).sum ≤ w.made key := by
      unfold made
      induction w.stations with
      | nil => exact Nat.le_refl _
      | cons s rest ih =>
        simp only [List.map_cons, List.sum_cons]
        exact Nat.add_le_add (Nat.le_add_right _ _) ih
    exact Nat.le_trans (Nat.le_trans hle (hw.made_le key)) (Bool.toNat_le _)
  same_id := by
    intro p i p' i' s s' o o' t t' hat hat' hkey hkey'
    rcases hw.informed p i s o _ hat t rfl with ⟨-, row, hrow, hid⟩
    rcases hw.informed p' i' s' o' _ hat' t' rfl with ⟨-, row', hrow', hid'⟩
    rw [hkey] at hrow
    rw [hkey', hrow, Option.some.injEq] at hrow'
    rw [← hid, ← hid', hrow']

end Network

end PuzzleContest
