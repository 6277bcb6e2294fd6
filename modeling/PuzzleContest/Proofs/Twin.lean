import PuzzleContest.Proofs.Mirror

/-!
# Deeds that keep abreast

A deed of a seat that is under way in two contests that mirror each other, while nobody else uses a
lock in either, takes the same steps in both.  What it remembers on the way differs only by the
numbers of tries.

Main results:

- `Opening.Phase.Twin`, `Submission.Phase.Twin`: phases that look the same.
- `Opening.Phase.Twin.advance`, `Submission.Phase.Twin.advance`: the next steps look the same too.
- `Deed.Abreast.advance`: two deeds that keep abreast.
-/

namespace PuzzleContest

/-! ## Locks and announcements -/

namespace Contest

variable {seat : Seat} {c d : Contest}

/-- Locks are not seen. -/
theorem Mirrors.locked (h : Mirrors seat c d) (locks locks' : Lock.Registry Try.Key Holder) :
    Mirrors seat { c with locks := locks } { d with locks := locks' } :=
  ⟨h.directory_eq, h.plan_eq, h.now_eq, h.catalog_eq, h.client_eq, h.schedule_eq, h.shown_eq,
    h.told_eq⟩

theorem Mirrors.stored (h : Mirrors seat c d) {store store' : Store}
    (hshown : store'.shown seat = store.shown seat) :
    Mirrors seat { c with store := store } { d with store := store' } :=
  ⟨h.directory_eq, h.plan_eq, h.now_eq, h.catalog_eq, h.client_eq, h.schedule_eq, hshown,
    h.told_eq⟩

end Contest

/-- A tiding of a try under another number. -/
def Store.Tiding.renumber (f : Nat → Nat) (n : Store.Tiding) : Store.Tiding := (n.1.renumber f, n.2)

namespace Contest

variable {seat : Seat} {c d : Contest}

/-- Of the tidings that a player announces, those of the seat are told there. -/
theorem told_announced (c : Contest) (p : Player) (tidings : List Store.Tiding) (seat : Seat) :
    ({ c with outbox := c.outbox ++ tidings.map (·.announcement p) } : Contest).told seat =
      c.told seat ++ ((tidings.map (Store.Tiding.renumber blank)).filter
        fun n => n.1.key.seat = seat).map (·.announcement p) := by
  unfold told newsOf
  rw [List.filter_append, List.map_append, List.filter_map, List.filter_map, List.map_map,
    List.map_map]
  rfl

/-- The same tidings are told in both contests. -/
theorem Mirrors.announced (h : Mirrors seat c d) (p : Player) {tidings tidings' : List Store.Tiding}
    (htidings : tidings'.map (Store.Tiding.renumber blank) =
      tidings.map (Store.Tiding.renumber blank)) :
    Mirrors seat { c with outbox := c.outbox ++ tidings.map (·.announcement p) }
      { d with outbox := d.outbox ++ tidings'.map (·.announcement p) } := by
  refine ⟨h.directory_eq, h.plan_eq, h.now_eq, h.catalog_eq, h.client_eq, h.schedule_eq,
    h.shown_eq, ?_⟩
  rw [told_announced, told_announced, h.told_eq, htidings]

end Contest

namespace Deed

variable {me : Holder} {d : Deed} {c₀ c : Contest}

/-- A deed gets the lock of its key at once: nobody uses a lock before it asks, and it holds the lock
while it waits. -/
structure Admitted (me : Holder) (d : Deed) (locks : Lock.Registry Try.Key Holder) : Prop where
  outside : d.stage = .outside → locks.entries = []
  waiting : d.stage = .waiting → locks.holds d.key me = true

/-- So it is with a deed that has found no lock in use. -/
theorem Apart.admitted (h : Apart me c₀ d c) (hc₀ : c₀.locks.entries = []) :
    d.Admitted me c.locks where
  outside hstage := (h.lodged.entries_eq hstage).trans hc₀
  waiting hstage := by
    rcases h.lodged.asked hstage with ⟨before, hentries, hlocks⟩
    rw [hlocks]
    exact Lock.Registry.holds_enter (hentries.trans hc₀) d.key me

end Deed

open PuzzleContest.Action PuzzleContest.Contest

/-! ## Steps of openings -/

namespace Opening

variable {me : Holder} {o : Opening} {c d : Contest}

/-- What an opening came to, under another number. -/
def Found.renumber (f : Nat → Nat) (x : Found) : Found := { x with entry := x.entry.renumber f }

/-- Phases that look the same but for the numbers of tries. -/
inductive Phase.Twin : Phase → Phase → Prop where
  | same (phase : Phase) : Twin phase phase
  | closing (p : Player) {x y : Except Failure Found}
      (h : y.map (Found.renumber blank) = x.map (Found.renumber blank)) :
      Twin (.closing p x) (.closing p y)
  | leaving (p : Player) {x y : Except Failure Found}
      (h : y.map (Found.renumber blank) = x.map (Found.renumber blank)) :
      Twin (.leaving p x) (.leaving p y)
  | done {x y : Except Failure (Try Nat)}
      (h : y.map (Try.renumber blank) = x.map (Try.renumber blank)) : Twin (.done x) (.done y)

theorem respects_look {seat : Seat} : Respects seat id look :=
  respects_session.bind fun _ => respects_glance

/-- A new try is made in both contests, or it is there in both. -/
theorem respects_insert (o : Opening) (start : Moment) :
    Respects o.key.seat (Option.map (Try.renumber blank)) (o.insert start) := by
  refine respects_commitFault.bind fun _ => (respects_checkInteger _).bind fun _ => ?_
  intro c d h
  dsimp only
  rcases Store.add?_cases_of_shown o.key h.shown_eq o.level start with
    ⟨hc, hd⟩ | ⟨t, store, t', store', hc, hd, htwin, hshown⟩
  · rw [hc, hd]
    exact ⟨rfl, h⟩
  · rw [hc, hd]
    exact ⟨congrArg (fun u => Except.ok (some u)) htwin, h.stored hshown⟩

/-- Two steps that look the same from a seat. -/
structure Alike (seat : Seat) (x y : Phase × Contest) : Prop where
  twin : x.1.Twin y.1
  mirrors : Mirrors seat x.2 y.2

theorem alike_same {seat : Seat} (phase : Phase) (h : Mirrors seat c d) :
    Alike seat (phase, c) (phase, d) :=
  ⟨.same phase, h⟩

theorem alike_found {seat : Seat} (h : Mirrors seat c d) (p : Player) (made : Bool) {t u : Try Nat}
    (htu : u.renumber blank = t.renumber blank) :
    Alike seat (.closing p (.ok ⟨t, made⟩), c) (.closing p (.ok ⟨u, made⟩), d) := by
  have hfound : (Found.mk u made).renumber blank = (Found.mk t made).renumber blank :=
    congrArg (Found.mk · made) htu
  exact ⟨.closing p (congrArg Except.ok hfound), h⟩

/-- An opening that leaves with one result in one contest leaves with its like in the other. -/
theorem alike_afterLeave {seat : Seat} (h : Mirrors seat c d) (p : Player)
    {x y : Except Failure Found}
    (hxy : y.map (Found.renumber blank) = x.map (Found.renumber blank)) :
    Alike seat (afterLeave p c x) (afterLeave p d y) := by
  rcases cases_of_map_eq hxy with ⟨e, rfl, rfl⟩ | ⟨a, b, rfl, rfl, hab⟩
  · simp only [afterLeave]
    by_cases hconflict : e.isConflict = true
    · rw [if_pos hconflict, if_pos hconflict]
      exact alike_same _ h
    · rw [if_neg hconflict, if_neg hconflict]
      exact alike_same _ h
  · have hentry : b.entry.renumber blank = a.entry.renumber blank := congrArg Found.entry hab
    have hmade : (b.renumber blank).made = (a.renumber blank).made := congrArg Found.made hab
    change b.made = a.made at hmade
    rw [afterLeave_ok, afterLeave_ok]
    refine ⟨.done (congrArg Except.ok hentry), h.announced p ?_⟩
    simp only [Phase.tidings, hmade]
    cases a.made with
    | true => exact congrArg (fun t => [(t, News.made)]) hentry
    | false => rfl

theorem alike_greeting (h : Mirrors o.key.seat c d) :
    Alike o.key.seat (o.advance me .greeting c) (o.advance me .greeting d) := by
  simp only [Opening.advance]
  rcases (respects_readPlayer o.player c d h).cases with
    ⟨e, c', d', hc, hd, h'⟩ | ⟨p, q, c', d', hc, hd, hpq, h'⟩
  · rw [hc, hd]
    exact alike_same _ h'
  · have hq : q = p := hpq
    rw [hc, hd, hq]
    exact alike_same _ h'

/-- Where nobody uses a lock, the one asked for is held at once in both contests. -/
theorem alike_queueing (h : Mirrors o.key.seat c d) (hc : c.locks.entries = [])
    (hd : d.locks.entries = []) (p : Player) :
    Alike o.key.seat (o.advance me (.queueing p) c) (o.advance me (.queueing p) d) := by
  have hholds : (c.enter o.key me).locks.holds o.key me = true :=
    Lock.Registry.holds_enter hc o.key me
  have hholds' : (d.enter o.key me).locks.holds o.key me = true :=
    Lock.Registry.holds_enter hd o.key me
  simp only [Opening.advance, hholds, hholds', if_true]
  exact alike_same _ (h.locked _ _)

theorem alike_looking (h : Mirrors o.key.seat c d) (p : Player) :
    Alike o.key.seat (o.advance me (.looking p) c) (o.advance me (.looking p) d) := by
  simp only [Opening.advance]
  rcases (respects_look c d h).cases with
    ⟨e, c', d', hc, hd, h'⟩ | ⟨overlooked, b, c', d', hc, hd, hb, h'⟩
  · rw [hc, hd]
    cases e <;> exact alike_same _ h'
  · have hb : b = overlooked := hb
    rw [hc, hd, hb]
    cases overlooked with
    | false => exact alike_same _ h'
    | true =>
      simp only [afterLook, h'.now_eq]
      exact alike_same _ h'

/-- A missing try is missing in both contests, and will have the same start. -/
theorem alike_reading (h : Mirrors o.key.seat c d) (p : Player) :
    Alike o.key.seat (o.advance me (.reading p) c) (o.advance me (.reading p) d) := by
  simp only [Opening.advance]
  rcases (respects_readTry rfl c d h).cases with
    ⟨e, c', d', hc, hd, h'⟩ | ⟨t, u, c', d', hc, hd, htu, h'⟩
  · rw [hc, hd]
    exact alike_same _ h'
  · rw [hc, hd]
    cases t with
    | none =>
      rw [Option.map_eq_none_iff.1 htu]
      simp only [afterRead, h'.now_eq]
      exact alike_same _ h'
    | some t =>
      rcases Option.map_eq_some_iff.1 htu with ⟨u, rfl, hu⟩
      exact alike_found h' p false hu

theorem alike_inserting (h : Mirrors o.key.seat c d) (p : Player) (start : Moment) :
    Alike o.key.seat (o.advance me (.inserting p start) c) (o.advance me (.inserting p start) d) := by
  simp only [Opening.advance]
  rcases (o.respects_insert start c d h).cases with
    ⟨e, c', d', hc, hd, h'⟩ | ⟨t, u, c', d', hc, hd, htu, h'⟩
  · rw [hc, hd]
    cases e <;> exact alike_same _ h'
  · rw [hc, hd]
    cases t with
    | none =>
      rw [Option.map_eq_none_iff.1 htu]
      exact alike_same _ h'
    | some t =>
      rcases Option.map_eq_some_iff.1 htu with ⟨u, rfl, hu⟩
      exact alike_found h' p true hu

theorem alike_rereading (h : Mirrors o.key.seat c d) (p : Player) :
    Alike o.key.seat (o.advance me (.rereading p) c) (o.advance me (.rereading p) d) := by
  simp only [Opening.advance]
  rcases (respects_demandTry rfl .conflict c d h).cases with
    ⟨e, c', d', hc, hd, h'⟩ | ⟨t, u, c', d', hc, hd, htu, h'⟩
  · rw [hc, hd]
    exact alike_same _ h'
  · rw [hc, hd]
    exact alike_found h' p false htu

/-- The next steps of openings that look the same, for which the lock is free, look the same too. -/
theorem Phase.Twin.advance {phase phase' : Phase} (htwin : phase.Twin phase')
    (h : Mirrors o.key.seat c d) (hc : Deed.Admitted me (.opening o phase) c.locks)
    (hd : Deed.Admitted me (.opening o phase') d.locks) :
    Alike o.key.seat (o.advance me phase c) (o.advance me phase' d) := by
  cases htwin with
  | closing p hxy => exact ⟨.leaving p hxy, h⟩
  | leaving p hxy => exact alike_afterLeave (h.locked _ _) p hxy
  | done hxy => exact ⟨.done hxy, h⟩
  | same =>
    cases phase with
    | arriving | approaching =>
      simp only [Opening.advance]
      rcases (respects_session c d h).cases with
        ⟨e, c', d', hc', hd', h'⟩ | ⟨_, _, c', d', hc', hd', -, h'⟩ <;> rw [hc', hd']
      · exact alike_same _ h'
      · exact alike_same _ h'
    | inquiring =>
      simp only [Opening.advance]
      rcases (respects_readCompetition o.competition c d h).cases with
        ⟨e, c', d', hc', hd', h'⟩ | ⟨_, _, c', d', hc', hd', -, h'⟩ <;> rw [hc', hd']
      · exact alike_same _ h'
      · exact alike_same _ h'
    | returning | recovering =>
      simp only [Opening.advance]
      rcases (respects_seek .conflict c d h).cases with
        ⟨e, c', d', hc', hd', h'⟩ | ⟨_, _, c', d', hc', hd', -, h'⟩ <;> rw [hc', hd']
      · exact alike_same _ h'
      · exact alike_same _ h'
    | greeting => exact alike_greeting h
    | queueing p => exact alike_queueing h (hc.outside rfl) (hd.outside rfl) p
    | waiting p =>
      have hholds : c.locks.holds o.key me = true := hc.waiting rfl
      have hholds' : d.locks.holds o.key me = true := hd.waiting rfl
      simp only [Opening.advance, hholds, hholds', if_true]
      exact alike_same _ h
    | looking p => exact alike_looking h p
    | reading p => exact alike_reading h p
    | inserting p start => exact alike_inserting h p start
    | rereading p => exact alike_rereading h p
    | closing p result => exact alike_same _ h
    | leaving p result => exact alike_afterLeave (h.locked _ _) p rfl
    | salvaging =>
      have hread := respects_demandTry rfl .conflict c d h
      exact ⟨.done hread.result_eq, hread.mirrors⟩
    | done result => exact alike_same _ h

end Opening

/-! ## Steps of submissions -/

namespace Submission

variable {me : Holder} {s : Submission} {c d : Contest}

/-- What a submission has recorded, under other numbers. -/
def Recorded.renumber (f : Nat → Nat) (x : Recorded) : Recorded where
  entry := x.entry.renumber f
  next := x.next.map (Try.renumber f)

/-- Phases that look the same but for the numbers of tries. -/
inductive Phase.Twin : Phase → Phase → Prop where
  | same (phase : Phase) : Twin phase phase
  | peeking (p : Player) {t u : Try Nat} (now : Moment) (h : u.renumber blank = t.renumber blank) :
      Twin (.peeking p t now) (.peeking p u now)
  | committing (p : Player) {t u : Try Nat} (next : Option Moment)
      (h : u.renumber blank = t.renumber blank) : Twin (.committing p t next) (.committing p u next)
  | closing (p : Player) {x y : Except Failure Recorded}
      (h : y.map (Recorded.renumber blank) = x.map (Recorded.renumber blank)) :
      Twin (.closing p x) (.closing p y)
  | leaving (p : Player) {x y : Except Failure Recorded}
      (h : y.map (Recorded.renumber blank) = x.map (Recorded.renumber blank)) :
      Twin (.leaving p x) (.leaving p y)
  | done {x y : Except Failure (Try Nat)}
      (h : y.map (Try.renumber blank) = x.map (Try.renumber blank)) : Twin (.done x) (.done y)

theorem respects_arrive {seat : Seat} (s : Submission) : Respects seat id s.arrive :=
  (respects_checkStep _).bind fun _ => respects_session

/-- A verdict does not depend on the number of the try. -/
theorem respects_judge (s : Submission) :
    Respects s.key.seat (Try.renumber blank) s.judge := by
  intro c d h
  refine (respects_demandTry rfl _ c d h).bind fun t u c' d' _ _ htu h' => ?_
  have hfinished : u.isFinished = t.isFinished := Try.isFinished_of_renumber htu
  have hanswer : (u.answered? c'.now s.answer s.correct).map (Try.renumber blank) =
      (t.answered? c'.now s.answer s.correct).map (Try.renumber blank) := by
    rw [← Try.answered?_renumber, ← Try.answered?_renumber, htu]
  rw [hfinished]
  cases t.isFinished with
  | true =>
    simp only [if_true, bind_apply, refuse, fail]
    exact ⟨rfl, h'⟩
  | false =>
    simp only [Bool.false_eq_true, if_false, bind_apply, view, h'.now_eq]
    cases ht : t.answered? c'.now s.answer s.correct with
    | none =>
      rw [ht] at hanswer
      rw [Option.map_eq_none_iff.1 hanswer]
      exact ⟨rfl, h'⟩
    | some v =>
      rw [ht] at hanswer
      rcases Option.map_eq_some_iff.1 hanswer with ⟨w, hw, hvw⟩
      rw [hw]
      exact ⟨congrArg Except.ok hvw, h'⟩

theorem respects_peek (s : Submission) (entry : Try Nat) :
    Respects s.key.seat (Option.map (Try.renumber blank)) (s.peek entry) :=
  respects_glance.bind fun _ => .ite (respects_pure _ none) <|
    (respects_checkInteger _).bind fun _ => respects_readTry rfl

/-- A try that was judged is seen from its seat in the place of the old one. -/
theorem Judged.shown_replace {store : Store} {t : Try Nat} (hs : store.Sound)
    (h : s.Judged store t) : (store.replace t).shown s.key.seat =
      (store.shown s.key.seat).map fun u => if u.key = s.key then t.renumber blank else u := by
  rcases h with ⟨row, now, hrow, -, hanswer⟩
  have ht := Try.answered_of_eq_some hanswer
  exact Store.shown_replace hs hrow ht.id_eq (ht.key_eq.trans (Store.key_of_find? hrow)) s.key.seat

/-- The same try, but for its number, is committed in both contests. -/
theorem echoes_commit {t u : Try Nat} (hs : c.store.Sound) (hs' : d.store.Sound)
    (ht : s.Judged c.store t) (hu : s.Judged d.store u) (h : Mirrors s.key.seat c d)
    (htu : u.renumber blank = t.renumber blank) (next : Option Moment) :
    Echoes s.key.seat (Recorded.renumber blank) (s.commit t next c) (s.commit u next d) := by
  have hattempts : u.attempts = t.attempts := Try.attempts_of_renumber htu
  have hlevel : u.level = t.level := Try.level_of_renumber htu
  have hreplaced : (d.store.replace u).shown s.key.seat = (c.store.replace t).shown s.key.seat := by
    rw [ht.shown_replace hs, hu.shown_replace hs', h.shown_eq, htu]
  unfold commit
  rw [hattempts]
  refine (respects_commitFault c d h).bind fun _ _ c₁ d₁ hc₁ hd₁ _ h₁ => ?_
  refine (respects_checkInteger _ c₁ d₁ h₁).bind fun _ _ c₂ d₂ hc₂ hd₂ _ h₂ => ?_
  -- Neither the fault nor the check has touched the stores, in which the tries were judged.
  have hstore : c₂.store = c.store :=
    ((isRead_commitFault.agrees_of_eq hc₁).trans ((isRead_checkInteger _).agrees_of_eq hc₂)).store_eq
  have hstore' : d₂.store = d.store :=
    ((isRead_commitFault.agrees_of_eq hd₁).trans ((isRead_checkInteger _).agrees_of_eq hd₂)).store_eq
  cases next with
  | none =>
    have hrecorded : (Recorded.mk u none).renumber blank = (Recorded.mk t none).renumber blank :=
      congrArg (Recorded.mk · none) htu
    refine ⟨congrArg Except.ok hrecorded, ?_⟩
    simp only [hstore, hstore']
    exact h₂.stored hreplaced
  | some start =>
    simp only [hstore, hstore', hlevel]
    rcases Store.add?_cases_of_shown s.nextKey hreplaced t.level start with
      ⟨hc, hd⟩ | ⟨v, store, v', store', hc, hd, hvv', hshown⟩
    · rw [hc, hd]
      exact ⟨rfl, h₂⟩
    · rw [hc, hd]
      have hrecorded : (Recorded.mk u (some v')).renumber blank =
          (Recorded.mk t (some v)).renumber blank := by
        simp only [Recorded.renumber, Option.map_some, htu, hvv']
      exact ⟨congrArg Except.ok hrecorded, h₂.stored hshown⟩

/-- Two steps that look the same from a seat. -/
structure Alike (seat : Seat) (x y : Phase × Contest) : Prop where
  twin : x.1.Twin y.1
  mirrors : Mirrors seat x.2 y.2

theorem alike_same {seat : Seat} (phase : Phase) (h : Mirrors seat c d) :
    Alike seat (phase, c) (phase, d) :=
  ⟨.same phase, h⟩

/-- A submission that leaves with one result in one contest leaves with its like in the other. -/
theorem alike_afterLeave {seat : Seat} (h : Mirrors seat c d) (p : Player)
    {x y : Except Failure Recorded}
    (hxy : y.map (Recorded.renumber blank) = x.map (Recorded.renumber blank)) :
    Alike seat (afterLeave p c x) (afterLeave p d y) := by
  rcases cases_of_map_eq hxy with ⟨e, rfl, rfl⟩ | ⟨a, b, rfl, rfl, hab⟩
  · exact alike_same _ h
  · have hentry : b.entry.renumber blank = a.entry.renumber blank := congrArg Recorded.entry hab
    have hnext : b.next.map (Try.renumber blank) = a.next.map (Try.renumber blank) :=
      congrArg Recorded.next hab
    rw [afterLeave_ok, afterLeave_ok]
    refine ⟨.done (congrArg Except.ok hentry), h.announced p ?_⟩
    simp only [Phase.tidings, List.map_cons, List.map_map]
    refine congrArg₂ List.cons (congrArg (·, News.changed) hentry) ?_
    cases ha : a.next with
    | none =>
      rw [ha] at hnext
      rw [Option.map_eq_none_iff.1 hnext]
    | some t =>
      rw [ha] at hnext
      rcases Option.map_eq_some_iff.1 hnext with ⟨u, hu, htu⟩
      rw [hu]
      exact congrArg (fun v => [(v, News.made)]) htu

/-- After the try is read, the next steps look the same. -/
theorem alike_afterJudge (s : Submission) (p : Player) {x y : Except Failure (Try Nat) × Contest}
    (h : Echoes s.key.seat (Try.renumber blank) x y) :
    Alike s.key.seat (s.afterJudge p x) (s.afterJudge p y) := by
  rcases h.cases with ⟨e, c', d', rfl, rfl, h'⟩ | ⟨t, u, c', d', rfl, rfl, htu, h'⟩
  · exact alike_same _ h'
  · simp only [afterJudge]
    by_cases hsolves : s.correct = true ∧ s.step = firstStep
    · rw [if_pos hsolves, if_pos hsolves, h'.now_eq]
      exact ⟨.peeking p c'.now htu, h'⟩
    · rw [if_neg hsolves, if_neg hsolves]
      exact ⟨.committing p none htu, h'⟩

theorem alike_peeking {t u : Try Nat} (h : Mirrors s.key.seat c d) (p : Player) (now : Moment)
    (htu : u.renumber blank = t.renumber blank) :
    Alike s.key.seat (s.advance me (.peeking p t now) c) (s.advance me (.peeking p u now) d) := by
  have hattempts : u.attempts = t.attempts := Try.attempts_of_renumber htu
  have hpeek : s.peek u = s.peek t := by
    unfold peek
    rw [hattempts]
  simp only [Submission.advance, hpeek]
  rcases (s.respects_peek t c d h).cases with
    ⟨e, c', d', hc', hd', h'⟩ | ⟨a, b, c', d', hc', hd', hab, h'⟩
  · rw [hc', hd']
    exact alike_same _ h'
  · rw [hc', hd']
    cases a with
    | none =>
      rw [Option.map_eq_none_iff.1 hab]
      exact ⟨.committing p (some now) htu, h'⟩
    | some a =>
      rcases Option.map_eq_some_iff.1 hab with ⟨b, rfl, -⟩
      exact ⟨.committing p none htu, h'⟩

theorem alike_committing {t u : Try Nat} (hs : c.store.Sound) (hs' : d.store.Sound)
    (ht : s.Judged c.store t) (hu : s.Judged d.store u) (h : Mirrors s.key.seat c d)
    (htu : u.renumber blank = t.renumber blank) (p : Player) (next : Option Moment) :
    Alike s.key.seat (s.advance me (.committing p t next) c)
      (s.advance me (.committing p u next) d) := by
  have hcommit := echoes_commit hs hs' ht hu h htu next
  exact ⟨.closing p hcommit.result_eq, hcommit.mirrors⟩

theorem alike_greeting (h : Mirrors s.key.seat c d) :
    Alike s.key.seat (s.advance me .greeting c) (s.advance me .greeting d) := by
  simp only [Submission.advance]
  rcases (respects_readPlayer s.player c d h).cases with
    ⟨e, c', d', hc, hd, h'⟩ | ⟨p, q, c', d', hc, hd, hpq, h'⟩
  · rw [hc, hd]
    exact alike_same _ h'
  · have hq : q = p := hpq
    rw [hc, hd, hq]
    exact alike_same _ h'

/-- Where nobody uses a lock, the one asked for is held at once in both contests. -/
theorem alike_queueing (h : Mirrors s.key.seat c d) (hc : c.locks.entries = [])
    (hd : d.locks.entries = []) (p : Player) :
    Alike s.key.seat (s.advance me (.queueing p) c) (s.advance me (.queueing p) d) := by
  have hholds : (c.enter s.key me).locks.holds s.key me = true :=
    Lock.Registry.holds_enter hc s.key me
  have hholds' : (d.enter s.key me).locks.holds s.key me = true :=
    Lock.Registry.holds_enter hd s.key me
  simp only [Submission.advance, hholds, hholds', if_true]
  exact alike_same _ (h.locked _ _)

/-- The next steps of submissions that look the same, for which the lock is free, look the same too. -/
theorem Phase.Twin.advance {phase phase' : Phase} (htwin : phase.Twin phase')
    (h : Mirrors s.key.seat c d) (hs : c.store.Sound) (hs' : d.store.Sound)
    (hc : Deed.Admitted me (.submission s phase) c.locks)
    (hd : Deed.Admitted me (.submission s phase') d.locks)
    (hinformed : phase.Informed s c.directory c.store)
    (hinformed' : phase'.Informed s d.directory d.store) :
    Alike s.key.seat (s.advance me phase c) (s.advance me phase' d) := by
  cases htwin with
  | peeking p now htu => exact alike_peeking h p now htu
  | committing p next htu =>
    exact alike_committing hs hs' hinformed.2.1 hinformed'.2.1 h htu p next
  | closing p hxy => exact ⟨.leaving p hxy, h⟩
  | leaving p hxy => exact alike_afterLeave (h.locked _ _) p hxy
  | done hxy => exact ⟨.done hxy, h⟩
  | same =>
    cases phase with
    | arriving =>
      simp only [Submission.advance]
      rcases (s.respects_arrive c d h).cases with
        ⟨e, c', d', hc', hd', h'⟩ | ⟨_, _, c', d', hc', hd', -, h'⟩ <;> rw [hc', hd']
      · exact alike_same _ h'
      · exact alike_same _ h'
    | greeting => exact alike_greeting h
    | queueing p => exact alike_queueing h (hc.outside rfl) (hd.outside rfl) p
    | waiting p =>
      have hholds : c.locks.holds s.key me = true := hc.waiting rfl
      have hholds' : d.locks.holds s.key me = true := hd.waiting rfl
      simp only [Submission.advance, hholds, hholds', if_true]
      exact alike_same _ h
    | looking p =>
      simp only [Submission.advance]
      rcases (respects_seek .tryNotFound c d h).cases with
        ⟨e, c', d', hc', hd', h'⟩ | ⟨_, _, c', d', hc', hd', -, h'⟩ <;> rw [hc', hd']
      · exact alike_same _ h'
      · exact alike_same _ h'
    | reading p => exact s.alike_afterJudge p (s.respects_judge c d h)
    | peeking p t now => exact alike_peeking h p now rfl
    | committing p t next =>
      exact alike_committing hs hs' hinformed.2.1 hinformed'.2.1 h rfl p next
    | closing p result => exact alike_same _ h
    | leaving p result => exact alike_afterLeave (h.locked _ _) p rfl
    | done result => exact alike_same _ h

end Submission

/-! ## Deeds -/

namespace Deed

variable {me : Holder} {x y : Deed} {c₀ d₀ c d : Contest}

/-- Deeds of one call that look the same but for the numbers of tries. -/
inductive Twin : Deed → Deed → Prop where
  | opening (o : Opening) {phase phase' : Opening.Phase} (h : phase.Twin phase') :
      Twin (.opening o phase) (.opening o phase')
  | submission (s : Submission) {phase phase' : Submission.Phase} (h : phase.Twin phase') :
      Twin (.submission s phase) (.submission s phase')

theorem Twin.isOver_eq (h : x.Twin y) : y.isOver = x.isOver := by
  cases h with
  | opening o h => cases h <;> rfl
  | submission s h => cases h <;> rfl

/-- A deed under way in each of two contests, from beginnings at which nobody used a lock: they look
the same, and so do the contests. -/
structure Abreast (me : Holder) (c₀ d₀ : Contest) (x : Deed) (c : Contest) (y : Deed) (d : Contest) :
    Prop where
  free : c₀.locks.entries = []
  free' : d₀.locks.entries = []
  since : Since c₀ x c
  since' : Since d₀ y d
  apart : Apart me c₀ x c
  apart' : Apart me d₀ y d
  twin : x.Twin y
  mirrors : Mirrors x.key.seat c d

/-- What a deed has left as it found it is so after its next step. -/
theorem Apart.advance (h : Apart me c₀ x c) (hsince : Since c₀ x c) (hfree : c₀.locks.entries = []) :
    Apart me c₀ (x.advance me c).1 (x.advance me c).2 :=
  h.stride (admits_of_entries hfree x.key me)
    (stride_advance me hsince.store hsince.cascaded hsince.informed).1

/-- Deeds that keep abreast do so with their next steps. -/
theorem Abreast.advance (h : Abreast me c₀ d₀ x c y d) (hleft : x.isOver = false) :
    Abreast me c₀ d₀ (x.advance me c).1 (x.advance me c).2 (y.advance me d).1 (y.advance me d).2 := by
  have hleft' : y.isOver = false := h.twin.isOver_eq.trans hleft
  have hadmitted := h.apart.admitted h.free
  have hadmitted' := h.apart'.admitted h.free'
  have hnext : (x.advance me c).1.Twin (y.advance me d).1 ∧
      Mirrors (x.advance me c).1.key.seat (x.advance me c).2 (y.advance me d).2 := by
    rcases h with ⟨-, -, hsince, hsince', -, -, htwin, hmirrors⟩
    cases htwin with
    | opening o htwin =>
      have hnext := htwin.advance hmirrors hadmitted hadmitted'
      exact ⟨.opening o hnext.twin, hnext.mirrors⟩
    | submission s htwin =>
      have hnext := htwin.advance hmirrors hsince.store hsince'.store hadmitted hadmitted'
        hsince.informed hsince'.informed
      exact ⟨.submission s hnext.twin, hnext.mirrors⟩
  exact ⟨h.free, h.free', h.since.advance hleft, h.since'.advance hleft',
    h.apart.advance h.since h.free, h.apart'.advance h.since' h.free', hnext.1, hnext.2⟩

end Deed

end PuzzleContest
