import Mathlib.Data.List.Induction
import PuzzleContest.Proofs.Bearing
import PuzzleContest.Proofs.Network
import PuzzleContest.Proofs.Season

/-!
# The first try of a puzzle among many processes

An opening runs among other openings of its own and of other processes, while anybody may make the try
that it is looking for, its wait for the lock may end in vain, and under the lock the database may wait
in vain.  However this goes, it returns a try that is in the store, or it fails because its last read
has found none; and it announces a new try exactly if it has made it.

Main results:

- `Network.inserted`, `Network.announced`: what the turns of one opening have brought.
- `Network.Account`: what is known of an opening after a list of moves.
- `Network.Account.turn`, `Network.Account.idle`: every move keeps the account, an own turn or any other.
- `Network.exists_account`: after all moves there is an account of every opening.
- `Network.firstTry_run`: what comes of an opening, and of all openings of a key.
-/

namespace PuzzleContest

/-! ## The books of an opening -/

namespace Opening

variable {me : Holder} {o : Opening} {phase : Phase} {c : Contest} {q : Player}

theorem Phase.rank_of_moment? {m : Moment} (h : phase.moment? = some m) : phase.rank = 7 := by
  cases phase with
  | inserting q start => rfl
  | arriving | inquiring | approaching | greeting | queueing | waiting | looking | reading | returning |
    rereading | closing | leaving | recovering | salvaging | done => exact absurd h (by simp [moment?])

theorem exists_done (h : phase.rank = 0) : ∃ result, phase = .done result := by
  cases phase with
  | done result => exact ⟨result, rfl⟩
  | arriving | inquiring | approaching | greeting | queueing | waiting | looking | reading | inserting |
    returning | rereading | closing | leaving | recovering | salvaging =>
    exact absurd h (by simp [Phase.rank])

/-- An opening that is not at its end comes closer to it. -/
theorem rank_advance_lt (me : Holder) (o : Opening) (phase : Phase) (c : Contest) :
    (o.advance me phase c).1.rank < phase.rank ∨ (o.advance me phase c).1.rank = 0 := by
  cases hresult : phase.result? with
  | none => exact .inl (rank_advance me o c hresult)
  | some result =>
    cases phase with
    | done result => exact .inr rfl
    | arriving | inquiring | approaching | greeting | queueing | waiting | looking | reading | inserting |
      returning | rereading | closing | leaving | recovering | salvaging =>
      exact absurd hresult (by simp [Phase.result?])

/-- In a step an opening makes a try and owes its announcement, or it announces what it owes, or neither.
It makes a try only where it is about to do so. -/
theorem books_advance (hwell : StepsWell me o phase c)
    (hq : c.directory.player? o.player = some q) :
    ∃ new said, (o.advance me phase c).2.store.tries = c.store.tries ++ new ∧
      (o.advance me phase c).2.outbox = c.outbox ++ said ∧
      phase.tidings.map (·.announcement q) ++
          new.map (fun t => Store.Tiding.announcement q (t, .made)) =
        said ++ (o.advance me phase c).1.tidings.map (·.announcement q) ∧
      (new ≠ [] → phase.rank = 7) ∧ new.length ≤ 1 ∧
      ∀ t ∈ new, (o.advance me phase c).2.store.Knows o.key t := by
  have hstride := hwell.1
  generalize o.advance me phase c = next at hstride
  rcases next with ⟨phase', c'⟩
  cases hstride with
  | read hkeeps | entered hkeeps | admitted hkeeps | withdrawn hkeeps =>
    refine ⟨[], [], (List.append_nil _).symm, (List.append_nil _).symm, ?_, by simp, by simp, by simp⟩
    have htidings : phase'.tidings = phase.tidings := hkeeps.tidings_eq
    simp [htidings]
  | @committed schedule store deal hcall hstage hnext htidings hrecorded hfits hmoment hchange hdeal =>
    have hnone : phase.tidings = [] := htidings
    cases deal with
    | answer now answer correct => exact absurd hfits id
    | opening level start =>
      generalize htold : (Deed.opening o phase').tidings = told at hchange
      have htold' : phase'.tidings = told := htold
      cases hchange with
      | @opened _ _ t _ hstep hindex hadd =>
        rcases Store.add?_eq_some_iff.1 hadd with ⟨-, hfresh, hstore⟩
        refine ⟨[t], [], congrArg Store.tries hstore, (List.append_nil _).symm, ?_,
          fun _ => Phase.rank_of_moment? hmoment, Nat.le_refl 1, fun u hu => ?_⟩
        · rw [hnone, htold']
          rfl
        · rw [List.mem_singleton.1 hu]
          have hfind : store.find? o.key = some t := (Store.find?_add hadd _).trans (if_pos rfl)
          exact ⟨congrArg Try.key hfresh, t, hfind, rfl⟩
  | @left q' hcall hstage hnext htidings hover hrecorded hplayer =>
    have hnone : phase'.tidings = [] := htidings
    have hsame : q' = q := by
      have hplayer' : c.directory.player? o.player = some q' := hplayer
      rw [hq, Option.some.injEq] at hplayer'
      exact hplayer'.symm
    refine ⟨[], phase.tidings.map (·.announcement q), (List.append_nil _).symm, ?_, ?_, by simp,
      by simp, by simp⟩
    · rw [hsame]
      rfl
    · simp [hnone]

end Opening

namespace Network

variable {w : Network} {p i p' i' : Nat} {s x : Station} {o : Opening} {q : Player}
variable {phase phase' : Opening.Phase} {moves : List Move} {move : Move}

/-! ## What the turns of an opening bring -/

/-- Whether a move is a turn of an opening. -/
def Move.isTurn (p i : Nat) : Move → Bool
  | .turn p' i' _ => decide (p' = p ∧ i' = i)
  | _ => false

/-- What a process has announced. -/
def outbox (w : Network) (p : Nat) : List (Announcement Nat) :=
  match w.stations[p]? with
  | some s => s.contest.outbox
  | none => []

/-- What is new from one state to the next in the turns of an opening. -/
def own {α : Type} (p i : Nat) (news : Network → Network → List α) (w : Network) : List Move → List α
  | [] => []
  | move :: rest =>
    (if move.isTurn p i then news w (w.step move) else []) ++ own p i news (w.step move) rest

/-- The tries that an opening has added to the store. -/
def inserted (p i : Nat) : Network → List Move → List (Try Nat) :=
  own p i fun w w' => w'.store.tries.drop w.store.tries.length

/-- The announcements of an opening. -/
def announced (p i : Nat) : Network → List Move → List (Announcement Nat) :=
  own p i fun w w' => (w'.outbox p).drop (w.outbox p).length

/-- In a turn of an opening the database breaks only under the lock, by waiting in vain. -/
def Move.Spares (p i : Nat) (w : Network) : Move → Prop
  | .turn p' i' schedule =>
    p' = p ∧ i' = i → ∀ x ∈ w.at? p i, schedule.Bearable (x.2.2.stage = .inside)
  | .lapse p' i' fault => p' = p ∧ i' = i → fault.failure = .refused .lockTimeout
  | .around _ _ _ | .made _ _ _ | .changed _ => True

/-- In all turns of an opening the database breaks only under the lock, by waiting in vain. -/
def Spares (p i : Nat) (w : Network) : List Move → Prop
  | [] => True
  | move :: rest => move.Spares p i w ∧ Spares p i (w.step move) rest

instance (p i : Nat) (w : Network) : DecidablePred (Move.Spares p i w)
  | .turn p' i' schedule => inferInstanceAs (Decidable
      (p' = p ∧ i' = i → ∀ x ∈ w.at? p i, schedule.Bearable (x.2.2.stage = .inside)))
  | .lapse p' i' fault => inferInstanceAs (Decidable
      (p' = p ∧ i' = i → fault.failure = .refused .lockTimeout))
  | .around _ _ _ | .made _ _ _ | .changed _ => isTrue trivial

instance decidableSpares (p i : Nat) (w : Network) : (moves : List Move) → Decidable (Spares p i w moves)
  | [] => isTrue trivial
  | move :: rest =>
    have := decidableSpares p i (w.step move) rest
    inferInstanceAs (Decidable (move.Spares p i w ∧ Spares p i (w.step move) rest))

/-- A try was in the store under a key at some time. -/
def Saw (w : Network) (moves : List Move) (key : Try.Key) (t : Try Nat) : Prop :=
  ∃ before, before <+: moves ∧ (w.run before).store.find? key = some t

/-- The last read of an opening, without the lock, has found no try. -/
def Missed (w : Network) (p i : Nat) (o : Opening) (moves : List Move) : Prop :=
  ∃ before schedule s, before ++ [.turn p i schedule] <+: moves ∧
    (w.run before).at? p i = some (s, o, .salvaging) ∧ (w.run before).store.find? o.key = none

theorem own_append_singleton {α : Type} (news : Network → Network → List α) (w : Network)
    (moves : List Move) (move : Move) :
    own p i news w (moves ++ [move]) = own p i news w moves ++
      if move.isTurn p i then news (w.run moves) ((w.run moves).step move) else [] := by
  induction moves generalizing w with
  | nil => simp [own, run]
  | cons first rest ih =>
    rw [List.cons_append, own, own, ih, List.append_assoc]
    rfl

theorem spares_append_singleton :
    Spares p i w (moves ++ [move]) ↔ Spares p i w moves ∧ move.Spares p i (w.run moves) := by
  induction moves generalizing w with
  | nil => simp [Spares, run]
  | cons first rest ih =>
    rw [List.cons_append, Spares, Spares, ih, and_assoc]
    rfl

theorem Saw.append {key : Try.Key} {t : Try Nat} (h : Saw w moves key t) (later : List Move) :
    Saw w (moves ++ later) key t := by
  rcases h with ⟨before, hbefore, hfind⟩
  exact ⟨before, hbefore.trans (List.prefix_append _ _), hfind⟩

theorem Missed.append (h : Missed w p i o moves) (later : List Move) :
    Missed w p i o (moves ++ later) := by
  rcases h with ⟨before, schedule, s, hbefore, hat, hfind⟩
  exact ⟨before, schedule, s, hbefore.trans (List.prefix_append _ _), hat, hfind⟩

/-! ## Single moves -/

theorem run_append_singleton (w : Network) (moves : List Move) (move : Move) :
    w.run (moves ++ [move]) = (w.run moves).step move := by
  simp [run]

/-- No move forgets a try. -/
theorem Sound.remembers_step (hw : w.Sound) (move : Move) :
    w.store.Remembers (w.step move).store := by
  cases move with
  | turn p i schedule =>
    cases hat : w.at? p i with
    | none =>
      simp only [Network.step, hat]
      exact .refl _
    | some x =>
      rcases x with ⟨s, o, phase⟩
      simp only [Network.step, hat]
      exact (hw.stepsWell hat schedule).1.remembers hw.store
  | lapse p i fault =>
    simp only [Network.step]
    split <;> exact .refl _
  | around p now locks =>
    simp only [Network.step]
    split <;> exact .refl _
  | made key level start =>
    simp only [Network.step]
    split
    · split
      · rename_i hadd
        exact Store.remembers_add hadd
      · exact .refl _
    · exact .refl _
  | changed t =>
    simp only [Network.step]
    split
    · rename_i row hrow
      split
      · rename_i hid
        exact Store.remembers_replace hw.store hrow hid
      · exact .refl _
    · exact .refl _

theorem at?_inj {o' : Opening} (h : w.at? p i = some (s, o, phase))
    (h' : w.at? p i = some (x, o', phase')) : s = x ∧ o = o' ∧ phase = phase' := by
  rw [h] at h'
  simpa using h'

theorem at?_move_self (h : w.at? p i = some (s, o, phase)) (store : Store) (phase' : Opening.Phase)
    (c : Contest) : at? ⟨store, w.stations.set p (s.move i o phase' c)⟩ p i =
      some (s.move i o phase' c, o, phase') := by
  rcases at?_eq_some_iff.1 h with ⟨hs, hq⟩
  rcases List.getElem?_eq_some_iff.1 hs with ⟨hp, -⟩
  rcases List.getElem?_eq_some_iff.1 hq with ⟨hi, -⟩
  exact at?_eq_some_iff.2 ⟨List.getElem?_set_self hp, List.getElem?_set_self hi⟩

/-- After a process was replaced by one with the same directory, an opening that was kept is where it was. -/
theorem at?_set_of_kept (h : w.at? p i = some (s, o, phase)) (hx : w.stations[p']? = some x)
    {store : Store} (x' : Station) (hdirectory : x'.contest.directory = x.contest.directory)
    (hkept : p' = p → x'.openings[i]? = x.openings[i]?) :
    ∃ y, at? ⟨store, w.stations.set p' x'⟩ p i = some (y, o, phase) ∧
      y.contest.directory = s.contest.directory := by
  rcases at?_eq_some_iff.1 h with ⟨hs, hq⟩
  by_cases hp : p' = p
  · subst hp
    rw [hs, Option.some.injEq] at hx
    subst hx
    rcases List.getElem?_eq_some_iff.1 hs with ⟨hlt, -⟩
    exact ⟨x', at?_eq_some_iff.2 ⟨List.getElem?_set_self hlt, (hkept rfl).trans hq⟩, hdirectory⟩
  · exact ⟨s, at?_eq_some_iff.2 ⟨(List.getElem?_set_ne hp).trans hs, hq⟩, rfl⟩

/-- After another opening has moved, an opening is where it was. -/
theorem at?_move_of_ne {o' : Opening} (h : w.at? p i = some (s, o, phase))
    (hother : w.at? p' i' = some (x, o', phase')) (hne : ¬(p' = p ∧ i' = i)) {store : Store}
    {phase'' : Opening.Phase} {c : Contest} (hdirectory : c.directory = x.contest.directory) :
    ∃ y, at? ⟨store, w.stations.set p' (x.move i' o' phase'' c)⟩ p i = some (y, o, phase) ∧
      y.contest.directory = s.contest.directory :=
  at?_set_of_kept h (at?_eq_some_iff.1 hother).1 _ hdirectory fun hp =>
    List.getElem?_set_ne fun hi => hne ⟨hp, hi⟩

/-- What a move is to an opening in a phase, and the phase that it leads to: a turn of its own, a fault
at the end of its transaction, or nothing. -/
inductive Move.Leads (w : Network) (p i : Nat) (s : Station) (o : Opening) :
    Move → Opening.Phase → Opening.Phase → Prop where
  | turn (schedule : Schedule) (phase : Opening.Phase) :
      Leads w p i s o (.turn p i schedule) phase
        (o.advance (.caller i) phase (w.view s schedule)).1
  | lapse (fault : Fault) (q : Player) (t : Try Nat) :
      Leads w p i s o (.lapse p i fault) (.closing q (.ok ⟨t, false⟩))
        (.closing q (.error fault.failure))
  | idle {move : Move} (hmove : move.isTurn p i = false) (phase : Opening.Phase) :
      Leads w p i s o move phase phase

/-- No move loses an opening. -/
theorem Sound.exists_leads (hw : w.Sound) (hat : w.at? p i = some (s, o, phase)) (move : Move) :
    ∃ y phase', (w.step move).at? p i = some (y, o, phase') ∧
      y.contest.directory = s.contest.directory ∧ move.Leads w p i s o phase phase' := by
  cases move with
  | turn p' i' schedule =>
    cases hother : w.at? p' i' with
    | none =>
      have hown : ¬(p' = p ∧ i' = i) := by
        rintro ⟨rfl, rfl⟩
        rw [hat] at hother
        exact absurd hother (by simp)
      simp only [Network.step, hother]
      exact ⟨s, phase, hat, rfl, .idle (by simp [Move.isTurn, hown]) phase⟩
    | some y =>
      rcases y with ⟨x, o', phase'⟩
      have hdirectory := (hw.stepsWell hother schedule).1.directory_eq
      simp only [Network.step, hother]
      by_cases hown : p' = p ∧ i' = i
      · rcases hown with ⟨rfl, rfl⟩
        rcases at?_inj hat hother with ⟨rfl, rfl, rfl⟩
        exact ⟨_, _, at?_move_self hat _ _ _, hdirectory, .turn schedule phase⟩
      · rcases at?_move_of_ne hat hother hown hdirectory with ⟨z, hz, hsame⟩
        exact ⟨z, phase, hz, hsame, .idle (by simp [Move.isTurn, hown]) phase⟩
  | lapse p' i' fault =>
    simp only [Network.step]
    split
    · rename_i x o' q t hother
      by_cases hown : p' = p ∧ i' = i
      · rcases hown with ⟨rfl, rfl⟩
        rcases at?_inj hat hother with ⟨rfl, rfl, rfl⟩
        exact ⟨_, _, at?_move_self hat _ _ _, rfl, .lapse fault q t⟩
      · rcases at?_move_of_ne hat hother hown rfl with ⟨z, hz, hsame⟩
        exact ⟨z, phase, hz, hsame, .idle rfl phase⟩
    · exact ⟨s, phase, hat, rfl, .idle rfl phase⟩
  | around p' now locks =>
    simp only [Network.step]
    split
    · rename_i x hx
      let later : Station := { x with contest := { x.contest with now := now, locks := locks } }
      rcases at?_set_of_kept hat hx later rfl fun _ => rfl with ⟨z, hz, hsame⟩
      exact ⟨z, phase, hz, hsame, .idle rfl phase⟩
    · exact ⟨s, phase, hat, rfl, .idle rfl phase⟩
  | made key level start =>
    simp only [Network.step]
    split
    · split
      · exact ⟨s, phase, hat, rfl, .idle rfl phase⟩
      · exact ⟨s, phase, hat, rfl, .idle rfl phase⟩
    · exact ⟨s, phase, hat, rfl, .idle rfl phase⟩
  | changed t =>
    simp only [Network.step]
    split
    · split
      · exact ⟨s, phase, hat, rfl, .idle rfl phase⟩
      · exact ⟨s, phase, hat, rfl, .idle rfl phase⟩
    · exact ⟨s, phase, hat, rfl, .idle rfl phase⟩

/-! ## Turns -/

theorem outbox_eq (h : w.at? p i = some (s, o, phase)) : w.outbox p = s.contest.outbox := by
  unfold outbox
  rw [(at?_eq_some_iff.1 h).1]

theorem step_turn {schedule : Schedule} {c : Contest} (hat : w.at? p i = some (s, o, phase))
    (hnext : o.advance (.caller i) phase (w.view s schedule) = (phase', c)) :
    w.step (.turn p i schedule) = ⟨c.store, w.stations.set p (s.move i o phase' c)⟩ := by
  simp only [Network.step, hat, hnext]

theorem inserted_turn {schedule : Schedule} {new : List (Try Nat)}
    (htries : ((w.run moves).step (.turn p i schedule)).store.tries =
      (w.run moves).store.tries ++ new) :
    inserted p i w (moves ++ [.turn p i schedule]) = inserted p i w moves ++ new := by
  simp [inserted, own_append_singleton, Move.isTurn, htries]

theorem announced_turn {schedule : Schedule} {said : List (Announcement Nat)}
    (houtbox : ((w.run moves).step (.turn p i schedule)).outbox p = (w.run moves).outbox p ++ said) :
    announced p i w (moves ++ [.turn p i schedule]) = announced p i w moves ++ said := by
  simp [announced, own_append_singleton, Move.isTurn, houtbox]

/-! ## Accounts -/

/-- What is known of an opening after a list of moves. -/
structure Account (w : Network) (p i : Nat) (o : Opening) (q : Player) (moves : List Move)
    (phase : Opening.Phase) : Prop where
  /-- Every turn brings it closer to its end. -/
  turns_le : phase.rank + moves.countP (Move.isTurn p i) ≤ 15 ∨ phase.rank = 0
  /-- It has announced the tries that it made, up to what it owes. -/
  books : (inserted p i w moves).map (fun t => Store.Tiding.announcement q (t, .made)) =
    announced p i w moves ++ phase.tidings.map (·.announcement q)
  /-- Until it is about to make a try it has made none. -/
  inserted_eq_nil : 7 ≤ phase.rank → inserted p i w moves = []
  inserted_le : (inserted p i w moves).length ≤ 1
  knows : ∀ t ∈ inserted p i w moves, (w.run moves).store.Knows o.key t
  fair : Spares p i w moves → phase.Fair o (Saw w moves o.key) (Missed w p i o moves)

theorem account_nil (w : Network) (p i : Nat) (o : Opening) (q : Player) :
    Account w p i o q [] .arriving where
  turns_le := .inl (Nat.le_refl 15)
  books := rfl
  inserted_eq_nil _ := rfl
  inserted_le := Nat.zero_le 1
  knows t ht := absurd ht (by simp [inserted, own])
  fair _ := trivial

/-- A move that is no turn of an opening keeps its account, if the phase that it leads to is as close to the
end and owes the same. -/
theorem Account.idle (h : Account w p i o q moves phase) (hw : (w.run moves).Sound)
    (hmove : move.isTurn p i = false) (hrank : phase'.rank = phase.rank)
    (htidings : phase'.tidings = phase.tidings)
    (hfair : move.Spares p i (w.run moves) →
      phase.Fair o (Saw w (moves ++ [move]) o.key) (Missed w p i o (moves ++ [move])) →
        phase'.Fair o (Saw w (moves ++ [move]) o.key) (Missed w p i o (moves ++ [move]))) :
    Account w p i o q (moves ++ [move]) phase' := by
  have hinserted : inserted p i w (moves ++ [move]) = inserted p i w moves := by
    simp [inserted, own_append_singleton, hmove]
  have hannounced : announced p i w (moves ++ [move]) = announced p i w moves := by
    simp [announced, own_append_singleton, hmove]
  refine ⟨?_, ?_, ?_, ?_, fun t ht => ?_, fun hspares => ?_⟩
  · simpa [hrank, hmove] using h.turns_le
  · rw [hinserted, hannounced, htidings]
    exact h.books
  · rw [hinserted, hrank]
    exact h.inserted_eq_nil
  · rw [hinserted]
    exact h.inserted_le
  · rw [hinserted] at ht
    rw [run_append_singleton]
    exact (h.knows t ht).remembers (hw.remembers_step move)
  · rcases spares_append_singleton.1 hspares with ⟨hbefore, hnow⟩
    exact hfair hnow ((h.fair hbefore).mono (fun t ht => ht.append _) fun hmissed => hmissed.append _)

/-- In a turn of its own an opening comes to what it has seen. -/
theorem fair_turn {schedule : Schedule} {c : Contest} (hat : (w.run moves).at? p i = some (s, o, phase))
    (hcompetition : (s.contest.directory.competition? o.competition).isSome = true)
    (hplayer : s.contest.directory.player? o.player = some q)
    (hnext : o.advance (.caller i) phase ((w.run moves).view s schedule) = (phase', c))
    (hspares : (Move.turn p i schedule).Spares p i (w.run moves))
    (hfair : phase.Fair o (Saw w moves o.key) (Missed w p i o moves)) :
    phase'.Fair o (Saw w (moves ++ [.turn p i schedule]) o.key)
      (Missed w p i o (moves ++ [.turn p i schedule])) := by
  have hstep := step_turn hat hnext
  have hlater : (o.advance (.caller i) phase ((w.run moves).view s schedule)).1.Fair o
      (Saw w (moves ++ [.turn p i schedule]) o.key)
      (Missed w p i o (moves ++ [.turn p i schedule])) := by
    refine hfair.advance (hspares ⟨rfl, rfl⟩ _ hat) hcompetition hplayer (fun t ht => ht.append _)
      (fun hmissed => hmissed.append _) (fun t ht => ?_) (fun t ht => ?_) fun hlast hnone => ?_
    · exact ⟨moves, List.prefix_append _ _, ht⟩
    · rw [hnext] at ht
      refine ⟨_, List.prefix_refl _, ?_⟩
      rw [run_append_singleton, hstep]
      exact ht
    · exact ⟨moves, schedule, s, List.prefix_refl _, hlast ▸ hat, hnone⟩
  rwa [hnext] at hlater

/-- A turn of an opening keeps its account. -/
theorem Account.turn {schedule : Schedule} {c : Contest} (h : Account w p i o q moves phase)
    (hw : (w.run moves).Sound) (hat : (w.run moves).at? p i = some (s, o, phase))
    (hcompetition : (s.contest.directory.competition? o.competition).isSome = true)
    (hplayer : s.contest.directory.player? o.player = some q)
    (hnext : o.advance (.caller i) phase ((w.run moves).view s schedule) = (phase', c)) :
    Account w p i o q (moves ++ [.turn p i schedule]) phase' := by
  have hstep := step_turn hat hnext
  have hbooks := Opening.books_advance (hw.stepsWell hat schedule) hplayer
  rw [hnext] at hbooks
  rcases hbooks with ⟨new, said, htries, houtbox, hbalance, hmakes, hnew, hknows⟩
  have hinserted : inserted p i w (moves ++ [.turn p i schedule]) = inserted p i w moves ++ new :=
    inserted_turn (by rw [hstep]; exact htries)
  have hannounced : announced p i w (moves ++ [.turn p i schedule]) = announced p i w moves ++ said :=
    announced_turn (by
      rw [hstep, outbox_eq hat, outbox_eq (at?_move_self hat c.store phase' c)]
      exact houtbox)
  have hrank : phase'.rank < phase.rank ∨ phase'.rank = 0 := by
    have hcloser := Opening.rank_advance_lt (.caller i) o phase ((w.run moves).view s schedule)
    rwa [hnext] at hcloser
  refine ⟨?_, ?_, fun hlate => ?_, ?_, fun t ht => ?_, fun hspares => ?_⟩
  · have hturns := h.turns_le
    rw [List.countP_append]
    simp only [Move.isTurn, List.countP_singleton, decide_true, and_self, if_true]
    omega
  · rw [hinserted, hannounced, List.map_append, h.books, List.append_assoc, hbalance,
      List.append_assoc]
  · have hnone : new = [] := by
      by_contra hsome
      have := hmakes hsome
      omega
    rw [hinserted, hnone, h.inserted_eq_nil (by omega), List.append_nil]
  · rw [hinserted, List.length_append]
    by_cases hnone : new = []
    · rw [hnone]
      exact h.inserted_le
    · rw [h.inserted_eq_nil (Nat.le_of_eq (hmakes hnone).symm)]
      simpa using hnew
  · rw [run_append_singleton]
    rw [hinserted] at ht
    rcases List.mem_append.1 ht with hold | hnow
    · exact (h.knows t hold).remembers (hw.remembers_step _)
    · rw [hstep]
      exact hknows t hnow
  · rcases spares_append_singleton.1 hspares with ⟨hbefore, hnow⟩
    exact fair_turn hat hcompetition hplayer hnext hnow (h.fair hbefore)

/-- Whatever happens, there is an account of an opening. -/
theorem exists_account (w : Network) (hw : w.Sound) (hat : w.at? p i = some (s, o, .arriving))
    (hcompetition : (s.contest.directory.competition? o.competition).isSome = true)
    (hplayer : s.contest.directory.player? o.player = some q) (moves : List Move) :
    ∃ x phase, (w.run moves).at? p i = some (x, o, phase) ∧
      x.contest.directory = s.contest.directory ∧ Account w p i o q moves phase := by
  -- The moves are taken from the end, since an account speaks of all moves so far.
  induction moves using List.reverseRecOn with
  | nil => exact ⟨s, .arriving, hat, rfl, account_nil w p i o q⟩
  | append_singleton before move ih =>
    rcases ih with ⟨x, phase, hx, hdirectory, haccount⟩
    rcases (hw.run before).exists_leads hx move with ⟨y, phase', hy, hsame, hleads⟩
    refine ⟨y, phase', by rw [run_append_singleton]; exact hy, hsame.trans hdirectory, ?_⟩
    cases hleads with
    | turn schedule =>
      rw [← hdirectory] at hcompetition hplayer
      exact haccount.turn (hw.run before) hx hcompetition hplayer rfl
    | lapse fault q' t =>
      refine haccount.idle (hw.run before) rfl rfl rfl fun hspares _ => ?_
      exact .inl (by rw [hspares ⟨rfl, rfl⟩]; rfl)
    | idle hmove => exact haccount.idle (hw.run before) hmove rfl rfl fun _ hfair => hfair

/-! ## What comes of an opening -/

/-- What comes of an opening of a player. -/
structure FirstTry (w : Network) (p i : Nat) (o : Opening) (q : Player) (moves : List Move) : Prop where
  /-- It is over with its fifteenth turn at the latest. -/
  ends : 15 ≤ moves.countP (Move.isTurn p i) →
    ∃ s result, (w.run moves).at? p i = some (s, o, .done result)
  /-- The try that it returns was in the store under the key, and is there still. -/
  returns : ∀ s t, (w.run moves).at? p i = some (s, o, .done (.ok t)) →
    Saw w moves o.key t ∧ (w.run moves).store.Knows o.key t
  /-- Where a try can have the index of the puzzle, it fails only with a conflict, because its last read
  has found no try. -/
  fails : Store.holds o.index = true → ∀ s e,
    (w.run moves).at? p i = some (s, o, .done (.error e)) →
      e = .refused .conflict ∧ Missed w p i o moves
  /-- Where no try can have it, that may be told as well. -/
  unstorable : Store.holds o.index = false → ∀ s e,
    (w.run moves).at? p i = some (s, o, .done (.error e)) →
      e = .refused .conflict ∧ Missed w p i o moves ∨ e = .integerTooWide
  /-- It makes one try at most, of its key. -/
  inserts : (inserted p i w moves).length ≤ 1 ∧
    ∀ t ∈ inserted p i w moves, (w.run moves).store.Knows o.key t
  /-- When it is over it has announced the try that it made, and no other one. -/
  announces : ∀ s result, (w.run moves).at? p i = some (s, o, .done result) →
    announced p i w moves =
      (inserted p i w moves).map fun t => ⟨o.competition, ⟨t, some q⟩, .made⟩

theorem Account.firstTry (h : Account w p i o q moves phase) (hw : (w.run moves).Sound)
    (hat : (w.run moves).at? p i = some (s, o, phase)) (hspares : Spares p i w moves) :
    FirstTry w p i o q moves where
  ends hmany := by
    have hrank : phase.rank = 0 := by
      have hturns := h.turns_le
      omega
    rcases Opening.exists_done hrank with ⟨result, rfl⟩
    exact ⟨s, result, hat⟩
  returns x t hx := by
    rcases at?_inj hat hx with ⟨-, -, rfl⟩
    exact ⟨h.fair hspares, hw.informed p i s o _ hat t rfl⟩
  fails hholds x e hx := by
    rcases at?_inj hat hx with ⟨-, -, rfl⟩
    rcases h.fair hspares with hmissed | ⟨-, hwide⟩
    · exact hmissed
    · simp [hholds] at hwide
  unstorable _ x e hx := by
    rcases at?_inj hat hx with ⟨-, -, rfl⟩
    exact (h.fair hspares).imp_right And.left
  inserts := ⟨h.inserted_le, h.knows⟩
  announces x result hx := by
    rcases at?_inj hat hx with ⟨-, -, rfl⟩
    have hbooks := h.books
    rw [show (Opening.Phase.done result).tidings = [] from rfl, List.map_nil, List.append_nil] at hbooks
    rw [← hbooks]
    refine List.map_congr_left fun t ht => ?_
    have hcompetition : t.key.competition = o.competition := by rw [(h.knows t ht).1]; rfl
    rw [Store.Tiding.announcement, hcompetition]

/-- Whatever other openings and other processes do, and however the database waits in vain under the lock,
an opening of a known player in a known competition comes to a try in the store or fails as its last read
finds none, and it announces exactly what it made; and all openings of a key come to one try. -/
theorem firstTry_run (stations : List (Contest × List Opening)) (moves : List Move) :
    (∀ (p i : Nat) (s : Contest × List Opening) (o : Opening) (q : Player),
      stations[p]? = some s → s.2[i]? = some o →
      (s.1.directory.competition? o.competition).isSome = true →
      s.1.directory.player? o.player = some q → Spares p i (begin stations) moves →
        FirstTry (begin stations) p i o q moves) ∧
      ∀ key, ((begin stations).run moves).OneTry key := by
  refine ⟨fun p i s o q hs ho hcompetition hplayer hspares => ?_,
    fun key => (sound_run stations moves).oneTry key⟩
  have hat : (begin stations).at? p i =
      some (⟨{ s.1 with outbox := [] }, s.2.map fun o => (o, .arriving)⟩, o, .arriving) := by
    refine at?_eq_some_iff.2 ⟨?_, ?_⟩
    · simp [begin, hs]
    · simp [ho]
  rcases exists_account (begin stations) (sound_begin stations) hat hcompetition hplayer moves with
    ⟨x, phase, hx, -, haccount⟩
  exact haccount.firstTry (sound_run stations moves) hx hspares

/-- Two processes open the same puzzle.  The first one is overtaken when it is about to make the try, and the
database waits in vain for a lock while it looks for the try of the other one; a last read finds that. -/
theorem firstTry_run_sample :
    let stations := [(Contest.sample, [Contest.sampleOpening]), (Contest.sample, [Contest.sampleOpening])]
    let locked : Schedule := { sessions := [some (.operational "database is locked" [])] }
    let moves := List.replicate 7 (Move.turn 0 0 {}) ++ List.replicate 10 (.turn 1 0 {}) ++
      [.turn 0 0 {}, .turn 0 0 locked] ++ List.replicate 4 (.turn 0 0 {})
    let w := begin stations
    (∀ p < 2, ∃ q, FirstTry w p 0 Contest.sampleOpening q moves) ∧
      (∀ key, (w.run moves).OneTry key) ∧
      ((w.run moves).stations.flatMap (·.openings)).map (fun x => x.2.result?.map fun result =>
        result.toOption.map (·.id)) = [some (some 0), some (some 0)] ∧
      ([0, 1].map fun p => (inserted p 0 w moves).length) = [0, 1] ∧
      ([0, 1].map fun p => (announced p 0 w moves).length) = [0, 1] := by
  intro stations locked moves w
  rcases firstTry_run stations moves with ⟨hfirst, hone⟩
  refine ⟨fun p hp => ?_, hone, by decide +kernel, by decide +kernel, by decide +kernel⟩
  refine ⟨{ id := "player", firstName := "First", lastName := "Last" }, ?_⟩
  match p, hp with
  | 0, _ => exact hfirst 0 0 _ _ _ rfl rfl (by decide +kernel) (by decide +kernel) (by decide +kernel)
  | 1, _ => exact hfirst 1 0 _ _ _ rfl rfl (by decide +kernel) (by decide +kernel) (by decide +kernel)

end Network

end PuzzleContest
