import PuzzleContest.Proofs.Action
import PuzzleContest.Proofs.Cascade

/-!
# Deeds

A deed is a call of the attempt service under way: an opening or a submission.  Each of its atomic
steps is one of a few strides: it reads, it deals with the lock of its key, it commits a change of the
store, or it leaves the lock and announces the tidings of that change.  What a deed remembers between
its steps agrees with the store.

Main results:

- `Deed.Stride`: the kinds of steps, with what each does to the contest.
- `Deed.Informed`: what a deed remembers is true of the store.
- `Deed.stride_advance`: every step of an informed deed is a stride and leaves it informed.
- `Deed.moment?_advance`: the time at which a deed opens or answers a try is one that it read from the
  clock.
-/

namespace PuzzleContest

/-- Where a call stands with the lock of its key. -/
inductive Stage where
  | outside
  | waiting
  | inside
deriving DecidableEq, Repr

namespace Store

/-- A try is known under its number: the store has a version of it. -/
def Knows (s : Store) (key : Try.Key) (t : Try Nat) : Prop :=
  t.key = key ∧ ∃ row, s.find? key = some row ∧ row.id = t.id

/-- The announcement of a tiding with its player. -/
def Tiding.announcement (p : Player) (n : Tiding) : Announcement Nat :=
  ⟨n.1.key.competition, ⟨n.1, some p⟩, n.2⟩

end Store

/-! ## Openings -/

namespace Opening.Phase

/-- Where an opening stands with the lock. -/
def stage : Phase → Stage
  | arriving | inquiring | approaching | greeting | queueing _ => .outside
  | waiting _ => .waiting
  | looking _ | reading _ | inserting _ _ | returning _ | rereading _ | closing _ _ |
    leaving _ _ => .inside
  | recovering | salvaging | done _ => .outside

/-- What an opening has changed and not announced yet. -/
def tidings : Phase → List Store.Tiding
  | closing _ (.ok found) | leaving _ (.ok found) =>
    if found.made then [(found.entry, .made)] else []
  | _ => []

/-- The time that an opening has read from the clock for a new try. -/
def moment? : Phase → Option Moment
  | inserting _ start => some start
  | _ => none

/-- What an opening remembers is true: its player is in the directory, and the store knows the try
that it came to. -/
def Informed (o : Opening) (directory : Directory) (s : Store) : Phase → Prop
  | arriving | inquiring | approaching | greeting | recovering | salvaging => True
  | queueing p | waiting p | looking p | reading p | inserting p _ | returning p | rereading p =>
    directory.player? o.player = some p
  | closing p result | leaving p result =>
    directory.player? o.player = some p ∧ ∀ found, result = .ok found → s.Knows o.key found.entry
  | done result => ∀ t, result = .ok t → s.Knows o.key t

end Opening.Phase

/-! ## Submissions -/

namespace Submission

/-- A try is what becomes of the one in the store by this submission. -/
def Judged (s : Submission) (store : Store) (t : Try Nat) : Prop :=
  ∃ row now, store.find? s.key = some row ∧ row.isFinished = false ∧
    row.answered? now s.answer s.correct = some t

/-- Whether a submission solves a first step, so that a try of the next step is due. -/
def SolvesFirst (s : Submission) : Prop := s.correct = true ∧ s.step = firstStep

namespace Phase

/-- Where a submission stands with the lock. -/
def stage : Phase → Stage
  | arriving | greeting | queueing _ => .outside
  | waiting _ => .waiting
  | looking _ | reading _ | peeking _ _ _ | committing _ _ _ | closing _ _ | leaving _ _ => .inside
  | done _ => .outside

/-- What a submission has changed and not announced yet. -/
def tidings : Phase → List Store.Tiding
  | closing _ (.ok x) | leaving _ (.ok x) =>
    (x.entry, .changed) :: x.next.toList.map fun t => (t, .made)
  | _ => []

/-- The time that a submission has read from the clock for its answer. -/
def moment? : Phase → Option Moment
  | peeking _ t _ | committing _ t _ => t.lastMove
  | _ => none

/-- Whether a submission has been recorded. -/
def isRecorded : Phase → Bool
  | closing _ (.ok _) | leaving _ (.ok _) | done (.ok _) => true
  | _ => false

/-- What a submission remembers is true: its player is in the directory, the try that it is about to
commit was judged, and the store knows the try that it committed. -/
def Informed (s : Submission) (directory : Directory) (store : Store) : Phase → Prop
  | arriving | greeting => True
  | queueing p | waiting p | looking p | reading p => directory.player? s.player = some p
  | peeking p t now => directory.player? s.player = some p ∧ s.Judged store t ∧ s.SolvesFirst ∧
    t.finish = some now
  | committing p t next => directory.player? s.player = some p ∧ s.Judged store t ∧
    match next with
    | some start => s.SolvesFirst ∧ t.finish = some start
    | none => ¬s.SolvesFirst
  | closing p result | leaving p result =>
    directory.player? s.player = some p ∧ ∀ x, result = .ok x → store.Knows s.key x.entry ∧
      ∀ t ∈ x.next, t.key = s.key.next
  | done result => ∀ t, result = .ok t → store.Knows s.key t

end Phase

end Submission

/-! ## Deeds -/

/-- An opening or a submission under way. -/
inductive Deed where
  | opening (o : Opening) (phase : Opening.Phase)
  | submission (s : Submission) (phase : Submission.Phase)

namespace Deed

/-- The call that a deed serves. -/
def call : Deed → Opening ⊕ Submission
  | opening o _ => .inl o
  | submission s _ => .inr s

/-- The key of a call. -/
def keyOf : Opening ⊕ Submission → Try.Key
  | .inl o => o.key
  | .inr s => s.key

/-- The key whose lock a deed needs. -/
def key (d : Deed) : Try.Key := keyOf d.call

/-- Whether a deal is what a call asks for. -/
def Fits : Opening ⊕ Submission → Deal → Prop
  | .inl o, .opening level _ => level = o.level
  | .inr s, .answer _ answer correct => answer = s.answer ∧ correct = s.correct
  | _, _ => False

/-- Where a deed stands with the lock. -/
def stage : Deed → Stage
  | opening _ phase => phase.stage
  | submission _ phase => phase.stage

/-- What a deed has changed and not announced yet. -/
def tidings : Deed → List Store.Tiding
  | opening _ phase => phase.tidings
  | submission _ phase => phase.tidings

/-- The time that a deed has read from the clock and not used yet. -/
def moment? : Deed → Option Moment
  | opening _ phase => phase.moment?
  | submission _ phase => phase.moment?

/-- Whether a deed is at its end. -/
def isOver : Deed → Bool
  | opening _ phase => phase.result?.isSome
  | submission _ phase => phase.result?.isSome

/-- Whether a deed is a submission that has been recorded. -/
def isRecorded : Deed → Bool
  | opening _ _ => false
  | submission _ phase => phase.isRecorded

/-- What a deed remembers is true. -/
def Informed (directory : Directory) (store : Store) : Deed → Prop
  | opening o phase => phase.Informed o directory store
  | submission s phase => phase.Informed s directory store

/-- The next atomic step of a deed. -/
def advance (me : Holder) (d : Deed) (c : Contest) : Deed × Contest :=
  match d with
  | opening o phase => let next := o.advance me phase c; (opening o next.1, next.2)
  | submission s phase => let next := s.advance me phase c; (submission s next.1, next.2)

/-- A step without a commit and without an announcement keeps what a deed has done so far. -/
structure Keeps (d d' : Deed) : Prop where
  call_eq : d'.call = d.call
  tidings_eq : d'.tidings = d.tidings
  isRecorded_eq : d'.isRecorded = d.isRecorded

/-- The kinds of atomic steps of a deed. -/
inductive Stride (me : Holder) (d : Deed) (c : Contest) : Deed → Contest → Prop where
  /-- It reads, and faults are used up. -/
  | read {d' : Deed} {schedule : Schedule} (hkeeps : d.Keeps d') (hstage : d'.stage = d.stage) :
      Stride me d c d' { c with schedule := schedule }
  /-- It asks for the lock and holds or awaits it. -/
  | entered {d' : Deed} (hkeeps : d.Keeps d') (hstage : d.stage = .outside)
      (hnext : d'.stage = if (c.enter d.key me).locks.holds d.key me then .inside else .waiting) :
      Stride me d c d' (c.enter d.key me)
  /-- It waited and holds the lock now. -/
  | admitted {d' : Deed} (hkeeps : d.Keeps d') (hstage : d.stage = .waiting)
      (hholds : c.locks.holds d.key me = true) (hnext : d'.stage = .inside) : Stride me d c d' c
  /-- It gives up the wait. -/
  | withdrawn {d' : Deed} (hkeeps : d.Keeps d') (hstage : d.stage = .waiting)
      (hholds : c.locks.holds d.key me = false) (hnext : d'.stage = .outside) :
      Stride me d c d' (c.withdraw d.key me)
  /-- It commits a change under the lock. -/
  | committed {d' : Deed} {schedule : Schedule} {store : Store} {deal : Deal}
      (hcall : d'.call = d.call) (hstage : d.stage = .inside) (hnext : d'.stage = .inside)
      (htidings : d.tidings = []) (hrecorded : d.isRecorded = false) (hfits : Fits d.call deal)
      (hmoment : d.moment? = some deal.moment)
      (hchange : c.store.Change d.key deal store d'.tidings)
      (hdeal : d'.isRecorded = deal.isAnswer) :
      Stride me d c d' { c with schedule := schedule, store := store }
  /-- It leaves the lock and announces its tidings. -/
  | left {d' : Deed} {p : Player} (hcall : d'.call = d.call) (hstage : d.stage = .inside)
      (hnext : d'.stage = .outside) (htidings : d'.tidings = [])
      (hover : d.tidings ≠ [] → d'.isOver = true)
      (hrecorded : d'.isRecorded = d.isRecorded)
      (hplayer : c.directory.player? d.key.player = some p) :
      Stride me d c d' { c with
        locks := c.locks.leave d.key
        outbox := c.outbox ++ d.tidings.map (·.announcement p) }

end Deed

/-! ## The steps of openings -/

namespace Opening

variable {me : Holder} {o : Opening} {c : Contest}

/-- A step of an opening is a stride and leaves it informed. -/
def StepsWell (me : Holder) (o : Opening) (phase : Phase) (c : Contest) : Prop :=
  let next := o.advance me phase c
  Deed.Stride me (.opening o phase) c (.opening o next.1) next.2 ∧
    next.1.Informed o next.2.directory next.2.store

/-- A step that only reads is a stride. -/
theorem stride_read {phase phase' : Phase} {schedule : Schedule}
    (hstage : phase'.stage = phase.stage) (htidings : phase'.tidings = phase.tidings) :
    Deed.Stride me (.opening o phase) c (.opening o phase') { c with schedule := schedule } :=
  .read ⟨rfl, htidings, rfl⟩ hstage

theorem stepsWell_arriving : StepsWell me o .arriving c := by
  obtain ⟨result, schedule, hresult⟩ := Contest.isRead_session.cases c
  simp only [StepsWell, advance, hresult]
  cases result with
  | ok _ => exact ⟨stride_read rfl rfl, trivial⟩
  | error e => exact ⟨stride_read rfl rfl, by simp [Phase.Informed]⟩

theorem stepsWell_inquiring : StepsWell me o .inquiring c := by
  obtain ⟨result, schedule, hresult⟩ := (Contest.isRead_readCompetition o.competition).cases c
  simp only [StepsWell, advance, hresult]
  cases result with
  | ok _ => exact ⟨stride_read rfl rfl, trivial⟩
  | error e => exact ⟨stride_read rfl rfl, by simp [Phase.Informed]⟩

theorem stepsWell_approaching : StepsWell me o .approaching c := by
  obtain ⟨result, schedule, hresult⟩ := Contest.isRead_session.cases c
  simp only [StepsWell, advance, hresult]
  cases result with
  | ok _ => exact ⟨stride_read rfl rfl, trivial⟩
  | error e => exact ⟨stride_read rfl rfl, by simp [Phase.Informed]⟩

theorem stepsWell_greeting : StepsWell me o .greeting c := by
  obtain ⟨result, schedule, hresult⟩ := (Contest.isRead_readPlayer o.player).cases c
  simp only [StepsWell, advance, hresult]
  cases result with
  | ok p =>
    have hp := Contest.readPlayer_eq_ok hresult
    exact ⟨stride_read rfl rfl, hp⟩
  | error e => exact ⟨stride_read rfl rfl, by simp [Phase.Informed]⟩

theorem stepsWell_queueing {p : Player} (h : (Phase.queueing p).Informed o c.directory c.store) :
    StepsWell me o (.queueing p) c := by
  simp only [StepsWell, advance]
  by_cases hholds : (c.enter o.key me).locks.holds o.key me = true
  · rw [if_pos hholds]
    exact ⟨.entered ⟨rfl, rfl, rfl⟩ rfl (if_pos hholds).symm, h⟩
  · rw [if_neg hholds]
    exact ⟨.entered ⟨rfl, rfl, rfl⟩ rfl (if_neg hholds).symm, h⟩

theorem stepsWell_waiting {p : Player} (h : (Phase.waiting p).Informed o c.directory c.store) :
    StepsWell me o (.waiting p) c := by
  simp only [StepsWell, advance]
  cases hholds : c.locks.holds o.key me with
  | true => exact ⟨.admitted ⟨rfl, rfl, rfl⟩ rfl hholds rfl, h⟩
  | false => exact ⟨.withdrawn ⟨rfl, rfl, rfl⟩ rfl hholds rfl, trivial⟩

theorem stepsWell_looking {p : Player} (h : (Phase.looking p).Informed o c.directory c.store) :
    StepsWell me o (.looking p) c := by
  obtain ⟨result, schedule, hresult⟩ := isRead_look.cases c
  simp only [StepsWell, advance, hresult]
  unfold afterLook
  split
  · rename_i heq
    obtain ⟨-, rfl⟩ := Prod.mk.inj heq
    exact ⟨stride_read rfl rfl, h⟩
  · rename_i heq
    obtain ⟨-, rfl⟩ := Prod.mk.inj heq
    exact ⟨stride_read rfl rfl, h⟩
  · rename_i heq
    obtain ⟨-, rfl⟩ := Prod.mk.inj heq
    exact ⟨stride_read rfl rfl, h⟩
  · rename_i heq
    obtain ⟨-, rfl⟩ := Prod.mk.inj heq
    exact ⟨stride_read rfl rfl, h, by simp⟩

theorem stepsWell_reading {p : Player} (h : (Phase.reading p).Informed o c.directory c.store) :
    StepsWell me o (.reading p) c := by
  simp only [StepsWell, advance, Contest.readTry_apply]
  by_cases hindex : Store.holds o.key.index = true
  · rw [if_pos hindex]
    cases hfind : c.store.find? o.key with
    | none => exact ⟨stride_read rfl rfl, h⟩
    | some t =>
      refine ⟨stride_read rfl rfl, h, ?_⟩
      rintro found ⟨rfl⟩
      exact ⟨Store.key_of_find? hfind, t, hfind, rfl⟩
  · rw [if_neg hindex]
    exact ⟨stride_read rfl rfl, h, by simp⟩

theorem stepsWell_inserting {p : Player} {start : Moment}
    (h : (Phase.inserting p start).Informed o c.directory c.store) :
    StepsWell me o (.inserting p start) c := by
  simp only [StepsWell, advance]
  rcases o.insert_cases start c with
    ⟨e, schedule, hresult⟩ | ⟨schedule, hresult⟩ | ⟨t, store, schedule, hindex, hadd, hresult⟩
  · rw [hresult]
    by_cases he : e = .duplicate
    · subst he
      exact ⟨stride_read rfl rfl, h⟩
    · have hclosing : afterInsert p (.error e, { c with schedule := schedule }) =
          (.closing p (.error e), { c with schedule := schedule }) := by
        cases e <;> first | rfl | exact absurd rfl he
      rw [hclosing]
      exact ⟨stride_read rfl rfl, h, by simp⟩
  · rw [hresult]
    exact ⟨stride_read rfl rfl, h⟩
  · rw [hresult]
    have hchange : c.store.Change o.key (.opening o.level start) store [(t, .made)] :=
      .opened rfl hindex hadd
    have hfits : Deed.Fits (.inl o) (.opening o.level start) := rfl
    refine ⟨.committed rfl rfl rfl rfl rfl hfits rfl hchange rfl, h, ?_⟩
    rintro found ⟨rfl⟩
    have ht := (Store.add?_eq_some_iff.1 hadd).2.1
    have hfind : store.find? o.key = some t := by rw [Store.find?_add hadd, if_pos rfl]
    exact ⟨congrArg Try.key ht, t, hfind, rfl⟩

theorem stepsWell_returning {p : Player} (h : (Phase.returning p).Informed o c.directory c.store) :
    StepsWell me o (.returning p) c := by
  obtain ⟨result, schedule, hresult⟩ := (Contest.isRead_seek .conflict).cases c
  simp only [StepsWell, advance, hresult]
  cases result with
  | ok _ => exact ⟨stride_read rfl rfl, h⟩
  | error e => exact ⟨stride_read rfl rfl, h, by simp⟩

theorem stepsWell_rereading {p : Player} (h : (Phase.rereading p).Informed o c.directory c.store) :
    StepsWell me o (.rereading p) c := by
  simp only [StepsWell, advance]
  cases hresult : Contest.demandTry o.key .conflict c with
  | mk result c' =>
    cases result with
    | ok t =>
      obtain ⟨hfind, rfl⟩ := Contest.demandTry_eq_ok hresult
      refine ⟨stride_read rfl rfl, h, ?_⟩
      rintro found ⟨rfl⟩
      exact ⟨Store.key_of_find? hfind, t, hfind, rfl⟩
    | error e =>
      obtain ⟨-, rfl⟩ := Prod.mk.inj ((Contest.demandTry_apply _ _ _).symm.trans hresult)
      exact ⟨stride_read rfl rfl, h, by simp⟩

theorem stepsWell_closing {p : Player} {result : Except Failure Found}
    (h : (Phase.closing p result).Informed o c.directory c.store) :
    StepsWell me o (.closing p result) c := by
  cases result <;> exact ⟨stride_read rfl rfl, h⟩

/-- The contest after a deed has left the lock of a key and announced its tidings. -/
theorem afterLeave_ok (p : Player) (c : Contest) (found : Found) :
    afterLeave p c (.ok found) = (.done (.ok found.entry), { c with
      outbox := c.outbox ++ (Phase.leaving p (.ok found)).tidings.map (·.announcement p) }) := by
  cases hmade : found.made with
  | true => simp [afterLeave, hmade, Phase.tidings, Contest.announce, Store.Tiding.announcement]
  | false => simp [afterLeave, hmade, Phase.tidings]

theorem stepsWell_leaving {p : Player} {result : Except Failure Found}
    (h : (Phase.leaving p result).Informed o c.directory c.store) :
    StepsWell me o (.leaving p result) c := by
  obtain ⟨hp, hknows⟩ := h
  simp only [StepsWell, advance]
  cases result with
  | ok found =>
    rw [afterLeave_ok]
    refine ⟨.left rfl rfl rfl rfl (fun _ => rfl) rfl hp, ?_⟩
    rintro t ⟨rfl⟩
    exact hknows found rfl
  | error e =>
    have hquiet : c.leave o.key = { c with
        locks := c.locks.leave o.key
        outbox := c.outbox ++ (Phase.leaving p (.error e)).tidings.map (·.announcement p) } := by
      simp [Contest.leave, Phase.tidings]
    rw [hquiet, afterLeave]
    cases e.isConflict with
    | true => exact ⟨.left rfl rfl rfl rfl (fun h => absurd rfl h) rfl hp, trivial⟩
    | false => exact ⟨.left rfl rfl rfl rfl (fun _ => rfl) rfl hp, by simp [Phase.Informed]⟩

theorem stepsWell_recovering : StepsWell me o .recovering c := by
  obtain ⟨result, schedule, hresult⟩ := (Contest.isRead_seek .conflict).cases c
  simp only [StepsWell, advance, hresult]
  cases result with
  | ok _ => exact ⟨stride_read rfl rfl, trivial⟩
  | error e => exact ⟨stride_read rfl rfl, by simp [Phase.Informed]⟩

theorem stepsWell_salvaging : StepsWell me o .salvaging c := by
  simp only [StepsWell, advance]
  cases hresult : Contest.demandTry o.key .conflict c with
  | mk result c' =>
    obtain ⟨-, rfl⟩ := Prod.mk.inj ((Contest.demandTry_apply _ _ _).symm.trans hresult)
    refine ⟨stride_read rfl rfl, ?_⟩
    rintro t ⟨rfl⟩
    have hfind := (Contest.demandTry_eq_ok hresult).1
    exact ⟨Store.key_of_find? hfind, t, hfind, rfl⟩

/-- Every step of an informed opening is a stride and leaves it informed. -/
theorem stepsWell {phase : Phase} (h : phase.Informed o c.directory c.store) :
    StepsWell me o phase c := by
  cases phase with
  | arriving => exact stepsWell_arriving
  | inquiring => exact stepsWell_inquiring
  | approaching => exact stepsWell_approaching
  | greeting => exact stepsWell_greeting
  | queueing p => exact stepsWell_queueing h
  | waiting p => exact stepsWell_waiting h
  | looking p => exact stepsWell_looking h
  | reading p => exact stepsWell_reading h
  | inserting p start => exact stepsWell_inserting h
  | returning p => exact stepsWell_returning h
  | rereading p => exact stepsWell_rereading h
  | closing p result => exact stepsWell_closing h
  | leaving p result => exact stepsWell_leaving h
  | recovering => exact stepsWell_recovering
  | salvaging => exact stepsWell_salvaging
  | done result => exact ⟨stride_read rfl rfl, h⟩

end Opening

/-! ## The steps of submissions -/

namespace Submission

variable {me : Holder} {s : Submission} {c : Contest}

/-- A step of a submission is a stride and leaves it informed. -/
def StepsWell (me : Holder) (s : Submission) (phase : Phase) (c : Contest) : Prop :=
  let next := s.advance me phase c
  Deed.Stride me (.submission s phase) c (.submission s next.1) next.2 ∧
    next.1.Informed s next.2.directory next.2.store

/-- A step that only reads is a stride. -/
theorem stride_read {phase phase' : Phase} {schedule : Schedule}
    (hstage : phase'.stage = phase.stage) (htidings : phase'.tidings = phase.tidings)
    (hrecorded : phase'.isRecorded = phase.isRecorded) :
    Deed.Stride me (.submission s phase) c (.submission s phase') { c with schedule := schedule } :=
  .read ⟨rfl, htidings, hrecorded⟩ hstage

theorem stepsWell_arriving : StepsWell me s .arriving c := by
  obtain ⟨result, schedule, hresult⟩ := s.isRead_arrive.cases c
  simp only [StepsWell, advance, hresult]
  cases result with
  | ok _ => exact ⟨stride_read rfl rfl rfl, trivial⟩
  | error e => exact ⟨stride_read rfl rfl rfl, by simp [Phase.Informed]⟩

theorem stepsWell_greeting : StepsWell me s .greeting c := by
  obtain ⟨result, schedule, hresult⟩ := (Contest.isRead_readPlayer s.player).cases c
  simp only [StepsWell, advance, hresult]
  cases result with
  | ok p =>
    have hp := Contest.readPlayer_eq_ok hresult
    exact ⟨stride_read rfl rfl rfl, hp⟩
  | error e => exact ⟨stride_read rfl rfl rfl, by simp [Phase.Informed]⟩

theorem stepsWell_queueing {p : Player} (h : (Phase.queueing p).Informed s c.directory c.store) :
    StepsWell me s (.queueing p) c := by
  simp only [StepsWell, advance]
  by_cases hholds : (c.enter s.key me).locks.holds s.key me = true
  · rw [if_pos hholds]
    exact ⟨.entered ⟨rfl, rfl, rfl⟩ rfl (if_pos hholds).symm, h⟩
  · rw [if_neg hholds]
    exact ⟨.entered ⟨rfl, rfl, rfl⟩ rfl (if_neg hholds).symm, h⟩

theorem stepsWell_waiting {p : Player} (h : (Phase.waiting p).Informed s c.directory c.store) :
    StepsWell me s (.waiting p) c := by
  simp only [StepsWell, advance]
  cases hholds : c.locks.holds s.key me with
  | true => exact ⟨.admitted ⟨rfl, rfl, rfl⟩ rfl hholds rfl, h⟩
  | false => exact ⟨.withdrawn ⟨rfl, rfl, rfl⟩ rfl hholds rfl, by simp [Phase.Informed]⟩

theorem stepsWell_looking {p : Player} (h : (Phase.looking p).Informed s c.directory c.store) :
    StepsWell me s (.looking p) c := by
  obtain ⟨result, schedule, hresult⟩ := (Contest.isRead_seek .tryNotFound).cases c
  simp only [StepsWell, advance, hresult]
  cases result with
  | ok _ => exact ⟨stride_read rfl rfl rfl, h⟩
  | error e => exact ⟨stride_read rfl rfl rfl, h, by simp⟩

theorem stepsWell_reading {p : Player} (h : (Phase.reading p).Informed s c.directory c.store) :
    StepsWell me s (.reading p) c := by
  simp only [StepsWell, advance]
  cases hresult : s.judge c with
  | mk result c' =>
    cases result with
    | error e =>
      obtain ⟨schedule, hschedule⟩ := s.isRead_judge c
      rw [hresult] at hschedule
      have hc' : c' = { c with schedule := schedule } := hschedule
      subst hc'
      exact ⟨stride_read rfl rfl rfl, h, by simp⟩
    | ok t =>
      obtain ⟨rfl, row, hrow, hopen, hanswer⟩ := judge_eq_ok hresult
      have hjudged : s.Judged c'.store t := ⟨row, c'.now, hrow, hopen, hanswer⟩
      simp only [afterJudge]
      by_cases hsolves : s.correct = true ∧ s.step = firstStep
      · rw [if_pos hsolves]
        have hfinish := (Try.answered_of_eq_some hanswer).finish_eq
        rw [if_pos hsolves.1] at hfinish
        exact ⟨stride_read rfl rfl rfl, h, hjudged, hsolves, hfinish⟩
      · rw [if_neg hsolves]
        exact ⟨stride_read rfl rfl rfl, h, hjudged, hsolves⟩

/-- The look-up of the second step finds nothing, because the first step is unfinished. -/
theorem stepsWell_peeking {p : Player} {t : Try Nat} {now : Moment} (hc : c.store.Cascaded)
    (h : (Phase.peeking p t now).Informed s c.directory c.store) :
    StepsWell me s (.peeking p t now) c := by
  obtain ⟨hp, hjudged, hsolves, hfinish⟩ := h
  obtain ⟨result, schedule, hresult⟩ := (s.isRead_peek t).cases c
  simp only [StepsWell, advance, hresult]
  cases result with
  | error e => exact ⟨stride_read rfl rfl rfl, hp, by simp⟩
  | ok found =>
    cases found with
    | none => exact ⟨stride_read rfl rfl rfl, hp, hjudged, hsolves, hfinish⟩
    | some second =>
      obtain ⟨row, _, hrow, hopen, -⟩ := hjudged
      have hnone : c.store.find? s.key.next = none := by
        refine hc.next_eq_none hsolves.2 fun first hfirst => ?_
        rw [hrow, Option.some.injEq] at hfirst
        rw [← hfirst]
        exact hopen
      have hsome := peek_eq_some hresult
      rw [hnone] at hsome
      exact absurd hsome (by simp)

theorem stepsWell_committing {p : Player} {t : Try Nat} {next : Option Moment}
    (hs : c.store.Sound) (h : (Phase.committing p t next).Informed s c.directory c.store) :
    StepsWell me s (.committing p t next) c := by
  obtain ⟨hp, ⟨row, now, hrow, hopen, hanswer⟩, hnext⟩ := h
  have ht := Try.answered_of_eq_some hanswer
  have hkey : t.key = s.key := ht.key_eq.trans (Store.key_of_find? hrow)
  have hfits : Deed.Fits (.inr s) (.answer now s.answer s.correct) := ⟨rfl, rfl⟩
  simp only [StepsWell, advance]
  rcases s.commit_cases t next c with
    ⟨e, schedule, hresult⟩ | ⟨schedule, rfl, hresult⟩ |
      ⟨start, second, store, schedule, rfl, hadd, hresult⟩
  · rw [hresult]
    exact ⟨stride_read rfl rfl rfl, hp, by simp⟩
  · rw [hresult]
    have hchange : c.store.Change s.key (.answer now s.answer s.correct) (c.store.replace t)
        [(t, .changed)] := .counted hrow hopen hanswer hnext
    refine ⟨.committed rfl rfl rfl rfl rfl hfits ht.lastMove_eq hchange rfl, hp, ?_⟩
    rintro x ⟨rfl⟩
    have hfind := (Store.find?_replace_answered hs hrow hanswer).2 s.key
    rw [if_pos rfl] at hfind
    exact ⟨⟨hkey, t, hfind, rfl⟩, by simp⟩
  · rw [hresult]
    obtain ⟨⟨hcorrect, hstep⟩, hstart⟩ := hnext
    rw [hcorrect] at hanswer
    have hnow : start = now := by
      rw [(Try.answered_of_eq_some hanswer).finish_eq, if_pos rfl, Option.some.injEq] at hstart
      exact hstart.symm
    subst hnow
    have hchange : c.store.Change s.key (.answer start s.answer s.correct) store
        [(t, .changed), (second, .made)] := by
      rw [hcorrect]
      exact .solved hstep hrow hopen hanswer hadd
    refine ⟨.committed rfl rfl rfl rfl rfl hfits ht.lastMove_eq hchange rfl, hp, ?_⟩
    rintro x ⟨rfl⟩
    have hne : s.key ≠ s.key.next := (Try.Key.next_ne hstep).symm
    have hfind := (Store.find?_replace_answered hs hrow hanswer).2 s.key
    rw [if_pos rfl] at hfind
    refine ⟨⟨hkey, t, ?_, rfl⟩, ?_⟩
    · rw [Store.find?_add hadd, if_neg hne, hfind]
    · rintro u ⟨rfl⟩
      exact congrArg Try.key (Store.add?_eq_some_iff.1 hadd).2.1

theorem stepsWell_closing {p : Player} {result : Except Failure Recorded}
    (h : (Phase.closing p result).Informed s c.directory c.store) :
    StepsWell me s (.closing p result) c := by
  cases result <;> exact ⟨stride_read rfl rfl rfl, h⟩

/-- The contest after a submission has left the lock of its key and announced its tidings. -/
theorem afterLeave_ok (p : Player) (c : Contest) (x : Recorded) :
    afterLeave p c (.ok x) = (.done (.ok x.entry), { c with
      outbox := c.outbox ++ (Phase.leaving p (.ok x)).tidings.map (·.announcement p) }) := by
  obtain ⟨entry, next⟩ := x
  cases next <;> simp [afterLeave, Phase.tidings, Contest.announce, Store.Tiding.announcement]

theorem stepsWell_leaving {p : Player} {result : Except Failure Recorded}
    (h : (Phase.leaving p result).Informed s c.directory c.store) :
    StepsWell me s (.leaving p result) c := by
  obtain ⟨hp, hknows⟩ := h
  simp only [StepsWell, advance]
  cases result with
  | ok x =>
    rw [afterLeave_ok]
    refine ⟨.left rfl rfl rfl rfl (fun _ => rfl) rfl hp, ?_⟩
    rintro t ⟨rfl⟩
    exact (hknows x rfl).1
  | error e =>
    have hquiet : c.leave s.key = { c with
        locks := c.locks.leave s.key
        outbox := c.outbox ++ (Phase.leaving p (.error e)).tidings.map (·.announcement p) } := by
      simp [Contest.leave, Phase.tidings]
    rw [hquiet, afterLeave]
    exact ⟨.left rfl rfl rfl rfl (fun _ => rfl) rfl hp, by simp [Phase.Informed]⟩

/-- Every step of an informed submission is a stride and leaves it informed. -/
theorem stepsWell {phase : Phase} (hs : c.store.Sound) (hc : c.store.Cascaded)
    (h : phase.Informed s c.directory c.store) : StepsWell me s phase c := by
  cases phase with
  | arriving => exact stepsWell_arriving
  | greeting => exact stepsWell_greeting
  | queueing p => exact stepsWell_queueing h
  | waiting p => exact stepsWell_waiting h
  | looking p => exact stepsWell_looking h
  | reading p => exact stepsWell_reading h
  | peeking p t now => exact stepsWell_peeking hc h
  | committing p t next => exact stepsWell_committing hs h
  | closing p result => exact stepsWell_closing h
  | leaving p result => exact stepsWell_leaving h
  | done result => exact ⟨stride_read rfl rfl rfl, h⟩

end Submission

/-! ## Times from the clock -/

theorem Opening.moment?_advance {me : Holder} {o : Opening} {phase : Phase} {c : Contest}
    {m : Moment} (h : (o.advance me phase c).1.moment? = some m) :
    m = c.now ∨ phase.moment? = some m := by
  cases phase with
  | looking p =>
    rcases isRead_look.cases c with ⟨result, schedule, hresult⟩
    simp only [advance, hresult] at h
    cases result with
    | ok overlooked =>
      cases overlooked with
      | true => exact .inl (Option.some.inj h).symm
      | false => exact absurd h (by simp [afterLook, Phase.moment?])
    | error e => cases e <;> exact absurd h (by simp [afterLook, Phase.moment?])
  | reading p =>
    simp only [advance, Contest.readTry_apply] at h
    by_cases hindex : Store.holds o.key.index = true
    · rw [if_pos hindex] at h
      cases hfind : c.store.find? o.key with
      | none =>
        rw [hfind] at h
        exact .inl (Option.some.inj h).symm
      | some t =>
        rw [hfind] at h
        exact absurd h (by simp [afterRead, Phase.moment?])
    · rw [if_neg hindex] at h
      exact absurd h (by simp [afterRead, Phase.moment?])
  | inserting p start =>
    simp only [advance] at h
    unfold afterInsert at h
    split at h <;> exact absurd h (by simp [Phase.moment?])
  | leaving p result =>
    cases result with
    | ok found => exact absurd h (by simp [advance, afterLeave, Phase.moment?])
    | error e =>
      cases he : e.isConflict <;>
        exact absurd h (by simp [advance, afterLeave, he, Phase.moment?])
  | arriving | inquiring | approaching | greeting | queueing | waiting | returning | rereading |
    recovering =>
    simp only [advance] at h
    split at h <;> exact absurd h (by simp [Phase.moment?])
  | closing | salvaging | done => exact absurd h (by simp [advance, Phase.moment?])

theorem Submission.moment?_advance {me : Holder} {s : Submission} {phase : Phase} {c : Contest}
    {m : Moment} (h : (s.advance me phase c).1.moment? = some m) :
    m = c.now ∨ phase.moment? = some m := by
  cases phase with
  | reading p =>
    simp only [advance] at h
    cases hresult : s.judge c with
    | mk result c' =>
      rw [hresult] at h
      cases result with
      | error e => exact absurd h (by simp [afterJudge, Phase.moment?])
      | ok t =>
        rcases judge_eq_ok hresult with ⟨rfl, row, -, -, hanswer⟩
        have hmove : t.lastMove = some c'.now := (Try.answered_of_eq_some hanswer).lastMove_eq
        have hnow : t.lastMove = some m := by
          simp only [afterJudge] at h
          by_cases hsolves : s.correct = true ∧ s.step = firstStep
          · rw [if_pos hsolves] at h
            exact h
          · rw [if_neg hsolves] at h
            exact h
        exact .inl (Option.some.inj (hnow.symm.trans hmove))
  | peeking p t now =>
    simp only [advance] at h
    refine .inr ?_
    split at h
    · exact h
    · exact h
    · exact absurd h (by simp [Phase.moment?])
  | leaving p result =>
    simp only [advance] at h
    unfold afterLeave at h
    split at h <;> exact absurd h (by simp [Phase.moment?])
  | arriving | greeting | queueing | waiting | looking =>
    simp only [advance] at h
    split at h <;> exact absurd h (by simp [Phase.moment?])
  | committing | closing | done => exact absurd h (by simp [advance, Phase.moment?])

/-- A deed has the time that it remembers from the clock. -/
theorem Deed.moment?_advance {me : Holder} {d : Deed} {c : Contest} {m : Moment}
    (h : (d.advance me c).1.moment? = some m) : m = c.now ∨ d.moment? = some m := by
  cases d with
  | opening o phase => exact Opening.moment?_advance h
  | submission s phase => exact Submission.moment?_advance h

/-! ## The steps of deeds -/

/-- Every step of an informed deed is a stride and leaves it informed. -/
theorem Deed.stride_advance {d : Deed} {c : Contest} (me : Holder) (hs : c.store.Sound)
    (hc : c.store.Cascaded) (h : d.Informed c.directory c.store) :
    d.Stride me c (d.advance me c).1 (d.advance me c).2 ∧
      (d.advance me c).1.Informed (d.advance me c).2.directory (d.advance me c).2.store := by
  cases d with
  | opening o phase => exact Opening.stepsWell h
  | submission s phase => exact Submission.stepsWell hs hc h

end PuzzleContest
