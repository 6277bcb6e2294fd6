import Mathlib.Algebra.GroupWithZero.Nat
import PuzzleContest.Proofs.Deed
import PuzzleContest.Proofs.Registry

/-!
# Calls in any order

A crowd is any number of openings and submissions of the attempt service that share a contest.  In each
move one of them takes its next atomic step, whichever it is, or the clock is set.  A call that waits
for a lock and takes its step without it gives up the wait, so that every order of steps and timeouts
is a list of moves.

Main results:

- `Crowd.run`: the state after a list of moves.
- `Crowd.Sound`: whoever is between its admission and its release holds the lock of its key; what
  calls remember is true; and the attempts, the finished tries and the tries themselves are counted
  by the calls that recorded, solved and made them.
- `Crowd.Sound.step`, `Crowd.sound_run`: every move keeps a crowd sound, and so does every run.
-/

namespace PuzzleContest

/-! ## The deeds of a key -/

namespace Deed

/-- A call before its first step. -/
def begin : Opening ⊕ Submission → Deed
  | .inl o => opening o .arriving
  | .inr s => submission s .arriving

/-- Whether a deed is a correct answer. -/
def isCorrect : Deed → Bool
  | opening _ _ => false
  | submission s _ => s.correct

/-- Whether a deed is a submission that has been recorded on a key. -/
def recordsOn (key : Try.Key) (d : Deed) : Bool := d.isRecorded && decide (d.key = key)

/-- Whether a deed is a correct submission that has been recorded on a key. -/
def solvesOn (key : Try.Key) (d : Deed) : Bool := d.recordsOn key && d.isCorrect

/-- A deed stands with the lock of its key as its stage says. -/
def Placed (me : Holder) (locks : Lock.Registry Try.Key Holder) (d : Deed) : Prop :=
  match d.stage with
  | .outside => True
  | .waiting => locks.Uses d.key me
  | .inside => locks.holder? d.key = some me

variable {d d' : Deed} {key : Try.Key} {deal : Deal}

theorem key_eq_of_call (h : d'.call = d.call) : d'.key = d.key := by
  unfold Deed.key
  rw [h]

theorem isCorrect_eq_of_call (h : d'.call = d.call) : d'.isCorrect = d.isCorrect := by
  cases d <;> cases d' <;> simp_all [call, isCorrect]

theorem recordsOn_congr (hcall : d'.call = d.call) (hrecorded : d'.isRecorded = d.isRecorded)
    (key : Try.Key) : d'.recordsOn key = d.recordsOn key := by
  unfold recordsOn
  rw [hrecorded, key_eq_of_call hcall]

theorem solvesOn_congr (hcall : d'.call = d.call) (hrecorded : d'.isRecorded = d.isRecorded)
    (key : Try.Key) : d'.solvesOn key = d.solvesOn key := by
  unfold solvesOn
  rw [recordsOn_congr hcall hrecorded, isCorrect_eq_of_call hcall]

/-- A deed that keeps its stage and its key keeps its place. -/
theorem Placed.congr {me : Holder} {locks : Lock.Registry Try.Key Holder}
    (hcall : d'.call = d.call) (hstage : d'.stage = d.stage) (h : d.Placed me locks) :
    d'.Placed me locks := by
  unfold Placed at h ⊢
  rw [hstage, key_eq_of_call hcall]
  exact h

theorem Placed.of_outside {me : Holder} {locks : Lock.Registry Try.Key Holder}
    (h : d.stage = .outside) : d.Placed me locks := by
  unfold Placed
  rw [h]
  trivial

theorem placed_waiting_iff {me : Holder} {locks : Lock.Registry Try.Key Holder}
    (h : d.stage = .waiting) : d.Placed me locks ↔ locks.Uses d.key me := by
  unfold Placed
  rw [h]

theorem placed_inside_iff {me : Holder} {locks : Lock.Registry Try.Key Holder}
    (h : d.stage = .inside) : d.Placed me locks ↔ locks.holder? d.key = some me := by
  unfold Placed
  rw [h]

/-- A deed keeps its place while nobody takes the place in line or the lock that it has. -/
theorem Placed.mono {me : Holder} {locks locks' : Lock.Registry Try.Key Holder}
    (h : d.Placed me locks)
    (hwaiting : locks.Uses d.key me → locks'.Uses d.key me)
    (hinside : d.stage = .inside → locks.holder? d.key = some me → locks'.holder? d.key = some me) :
    d.Placed me locks' := by
  cases hstage : d.stage with
  | outside => exact .of_outside hstage
  | waiting =>
    rw [placed_waiting_iff hstage] at h ⊢
    exact hwaiting h
  | inside =>
    rw [placed_inside_iff hstage] at h ⊢
    exact hinside hstage h

theorem Fits.isCorrect_eq (h : Fits d.call deal) :
    deal.isCorrect = (deal.isAnswer && d.isCorrect) := by
  cases d <;> cases deal <;> simp_all [Fits, call, isCorrect, Deal.isCorrect, Deal.isAnswer]

/-- A change by somebody else, who holds another lock, leaves what a deed remembers true. -/
theorem Informed.change {directory : Directory} {s s' : Store} {tidings : List Store.Tiding}
    (hs : s.Sound) (h : s.Change key deal s' tidings) (hd : d.Informed directory s)
    (hkey : d.stage = .inside → d.key ≠ key) : d.Informed directory s' := by
  have hknows : ∀ {k : Try.Key} {t : Try Nat}, s.Knows k t → s'.Knows k t := by
    rintro k t ⟨ht, row, hrow, hid⟩
    obtain ⟨row', hrow', hid'⟩ := h.id_kept hs hrow
    exact ⟨ht, row', hrow', hid'.trans hid⟩
  cases d with
  | opening o phase =>
    cases phase with
    | closing p result => exact ⟨hd.1, fun found hfound => hknows (hd.2 found hfound)⟩
    | leaving p result => exact ⟨hd.1, fun found hfound => hknows (hd.2 found hfound)⟩
    | done result => exact fun t ht => hknows (hd t ht)
    | arriving | inquiring | approaching | greeting | queueing | waiting | looking | reading |
      inserting | returning | rereading | recovering | salvaging => exact hd
  | submission sub phase =>
    have hjudged : ∀ {t : Try Nat}, sub.key ≠ key → sub.Judged s t → sub.Judged s' t := by
      rintro t hne ⟨row, now, hrow, hopen, hanswer⟩
      exact ⟨row, now, h.find?_of_ne hs hne hrow, hopen, hanswer⟩
    cases phase with
    | peeking p t now => exact ⟨hd.1, hjudged (hkey rfl) hd.2.1, hd.2.2⟩
    | committing p t next => exact ⟨hd.1, hjudged (hkey rfl) hd.2.1, hd.2.2⟩
    | closing p result =>
      exact ⟨hd.1, fun x hx => ⟨hknows (hd.2 x hx).1, (hd.2 x hx).2⟩⟩
    | leaving p result =>
      exact ⟨hd.1, fun x hx => ⟨hknows (hd.2 x hx).1, (hd.2 x hx).2⟩⟩
    | done result => exact fun t ht => hknows (hd t ht)
    | arriving | greeting | queueing | waiting | looking | reading => exact hd

end Deed

/-! ## Crowds -/

/-- Calls that share a contest.  The place of a call in the list is its number. -/
structure Crowd where
  contest : Contest
  deeds : List Deed

namespace Crowd

/-- What happens next. -/
inductive Move where
  /-- The call of a number takes its next atomic step. -/
  | turn (i : Nat)
  /-- The clock is set. -/
  | clock (now : Moment)

/-- Calls that start on a contest without tries, in which no lock is held and nothing has been
announced. -/
def begin (c : Contest) (calls : List (Opening ⊕ Submission)) : Crowd where
  contest := { c with store := {}, locks := {}, outbox := [] }
  deeds := calls.map Deed.begin

/-- The state after one move. -/
def step (w : Crowd) : Move → Crowd
  | .turn i =>
    match w.deeds[i]? with
    | none => w
    | some d =>
      let next := d.advance (.caller i) w.contest
      ⟨next.2, w.deeds.set i next.1⟩
  | .clock now => { w with contest := { w.contest with now := now } }

/-- The state after a list of moves. -/
def run (w : Crowd) (moves : List Move) : Crowd := moves.foldl step w

theorem step_turn_of_some {w : Crowd} {i : Nat} {d : Deed} (h : w.deeds[i]? = some d) :
    w.step (.turn i) = ⟨(d.advance (.caller i) w.contest).2,
      w.deeds.set i (d.advance (.caller i) w.contest).1⟩ := by
  simp only [step, h]

theorem step_turn_of_none {w : Crowd} {i : Nat} (h : w.deeds[i]? = none) :
    w.step (.turn i) = w := by
  simp only [step, h]

/-- Where one element is replaced, a sum changes by the difference. -/
theorem sum_map_set {α : Type} (f : α → Nat) {l : List α} {i : Nat} {a : α} (h : l[i]? = some a)
    (b : α) : ((l.set i b).map f).sum + f a = (l.map f).sum + f b := by
  induction l generalizing i with
  | nil => simp at h
  | cons e rest ih =>
    cases i with
    | zero =>
      have he : e = a := by simpa using h
      subst he
      simp only [List.set_cons_zero, List.map_cons, List.sum_cons]
      omega
    | succ i =>
      have hrest := ih (i := i) (by simpa using h)
      simp only [List.set_cons_succ, List.map_cons, List.sum_cons]
      omega

/-- The sum of a number over all calls. -/
def tally (f : Deed → Nat) (deeds : List Deed) : Nat := (deeds.map f).sum

/-- Where one call is replaced, a sum changes by the difference. -/
theorem tally_set (f : Deed → Nat) {deeds : List Deed} {i : Nat} {d : Deed}
    (h : deeds[i]? = some d) (d' : Deed) :
    tally f (deeds.set i d') + f d = tally f deeds + f d' := sum_map_set f h d'

/-- Where one call is replaced, a count changes by the difference. -/
theorem countP_set (p : Deed → Bool) {deeds : List Deed} {i : Nat} {d : Deed}
    (h : deeds[i]? = some d) (d' : Deed) :
    (deeds.set i d').countP p + (p d).toNat = deeds.countP p + (p d').toNat := by
  have hcount : ∀ l : List Deed, l.countP p = tally (fun d => (p d).toNat) l := by
    intro l
    induction l with
    | nil => rfl
    | cons e rest ih =>
      rw [List.countP_cons, ih]
      cases hp : p e <;> simp [tally, hp, Nat.add_comm]
  rw [hcount, hcount]
  exact tally_set (fun d => (p d).toNat) h d'

/-- Where a call is replaced by one that counts alike, a count stays. -/
theorem countP_set_of_eq (p : Deed → Bool) {deeds : List Deed} {i : Nat} {d d' : Deed}
    (h : deeds[i]? = some d) (hp : p d' = p d) : (deeds.set i d').countP p = deeds.countP p := by
  have hset := countP_set p h d'
  rw [hp] at hset
  omega

/-- How often it was announced that a try of a key was made. -/
def creations (outbox : List (Announcement Nat)) (key : Try.Key) : Nat :=
  outbox.countP fun a => a.news = .made ∧ a.snapshot.entry.key = key

theorem creations_append (outbox : List (Announcement Nat)) (p : Player)
    (tidings : List Store.Tiding) (key : Try.Key) :
    creations (outbox ++ tidings.map (·.announcement p)) key =
      creations outbox key + Store.madeOf key tidings := by
  unfold creations Store.madeOf Store.tidingsOf
  rw [List.countP_append, List.countP_map, List.countP_filter]
  congr 2
  funext n
  simp [Store.Tiding.announcement]

/-- What holds between the moves of a crowd. -/
structure Sound (w : Crowd) : Prop where
  locks : w.contest.locks.Sound
  store : w.contest.store.Sound
  cascaded : w.contest.store.Cascaded
  /-- Whoever is inside holds the lock, and whoever waits has a place. -/
  placed : ∀ (i : Nat) (d : Deed), w.deeds[i]? = some d → d.Placed (.caller i) w.contest.locks
  informed : ∀ (i : Nat) (d : Deed), w.deeds[i]? = some d →
    d.Informed w.contest.directory w.contest.store
  /-- Attempts are recorded submissions. -/
  attempts : ∀ key, w.contest.store.attemptsOf key = w.deeds.countP (Deed.recordsOn key)
  /-- A try is finished by one correct submission. -/
  solved : ∀ key, (w.contest.store.isSolved key).toNat = w.deeds.countP (Deed.solvesOn key)
  /-- A try that was made has been announced, or the call that made it has yet to do so. -/
  made : ∀ key, (w.contest.store.has key).toNat =
    creations w.contest.outbox key + tally (fun d => Store.madeOf key d.tidings) w.deeds

theorem tally_begin (key : Try.Key) (calls : List (Opening ⊕ Submission)) :
    tally (fun d => Store.madeOf key d.tidings) (calls.map Deed.begin) = 0 := by
  induction calls with
  | nil => rfl
  | cons call rest ih =>
    have hcall : Store.madeOf key (Deed.begin call).tidings = 0 := by cases call <;> rfl
    simp only [tally, List.map_cons, List.sum_cons] at ih ⊢
    rw [hcall, ih]

theorem isRecorded_begin (call : Opening ⊕ Submission) : (Deed.begin call).isRecorded = false := by
  cases call <;> rfl

/-- Calls that have not begun are a sound crowd. -/
theorem sound_begin (c : Contest) (calls : List (Opening ⊕ Submission)) :
    (begin c calls).Sound where
  locks := Lock.Registry.sound_empty
  store := Store.sound_empty
  cascaded := Store.cascaded_empty
  placed := by
    intro i d h
    simp only [begin, List.getElem?_map, Option.map_eq_some_iff] at h
    obtain ⟨call, -, rfl⟩ := h
    cases call <;> trivial
  informed := by
    intro i d h
    simp only [begin, List.getElem?_map, Option.map_eq_some_iff] at h
    obtain ⟨call, -, rfl⟩ := h
    cases call <;> trivial
  attempts := by
    intro key
    have hnone : (calls.map Deed.begin).countP (Deed.recordsOn key) = 0 := by
      rw [List.countP_map, List.countP_eq_zero]
      intro call _
      simp [Deed.recordsOn, isRecorded_begin]
    exact (congrArg Nat.cast hnone).symm
  solved := by
    intro key
    have hnone : (calls.map Deed.begin).countP (Deed.solvesOn key) = 0 := by
      rw [List.countP_map, List.countP_eq_zero]
      intro call _
      simp [Deed.solvesOn, Deed.recordsOn, isRecorded_begin]
    exact hnone.symm
  made := by
    intro key
    have hnone := tally_begin key calls
    change 0 = 0 + tally (fun d => Store.madeOf key d.tidings) (calls.map Deed.begin)
    omega

/-! ## Moves keep a crowd sound -/

variable {w : Crowd} {i j : Nat} {d d' e : Deed} {c' : Contest}

/-- After one element was replaced, an element is that one, or another one that is as it was. -/
theorem getElem?_set_cases {α : Type} {l : List α} {a b : α} (h : (l.set i a)[j]? = some b) :
    j = i ∧ b = a ∨ j ≠ i ∧ l[j]? = some b := by
  rw [List.getElem?_set] at h
  by_cases hij : i = j
  · rw [if_pos hij] at h
    split at h
    · exact .inl ⟨hij.symm, (Option.some.inj h).symm⟩
    · exact absurd h (by simp)
  · rw [if_neg hij] at h
    exact .inr ⟨Ne.symm hij, h⟩

/-- No two calls are inside on the same key. -/
theorem Sound.key_ne (hw : w.Sound) (hi : w.deeds[i]? = some d) (hj : w.deeds[j]? = some e)
    (hij : j ≠ i) (hd : d.stage = .inside) (he : e.stage = .inside) : e.key ≠ d.key := by
  intro hkey
  have hdi := (Deed.placed_inside_iff hd).1 (hw.placed i d hi)
  have hej := (Deed.placed_inside_iff he).1 (hw.placed j e hj)
  rw [hkey, hdi, Option.some.injEq, Holder.caller.injEq] at hej
  exact hij hej.symm

/-- A move that neither commits nor announces keeps a crowd sound if it keeps the locks sound and
everybody in place. -/
theorem Sound.keep (hw : w.Sound) (hi : w.deeds[i]? = some d) (hkeeps : d.Keeps d')
    (hdirectory : c'.directory = w.contest.directory) (hstore : c'.store = w.contest.store)
    (houtbox : c'.outbox = w.contest.outbox) (hinformed : d'.Informed c'.directory c'.store)
    (hlocks : c'.locks.Sound) (hplaced : d'.Placed (.caller i) c'.locks)
    (hothers : ∀ (j : Nat) (e : Deed), j ≠ i → w.deeds[j]? = some e → e.Placed (.caller j) c'.locks) :
    Sound ⟨c', w.deeds.set i d'⟩ where
  locks := hlocks
  store := hstore ▸ hw.store
  cascaded := hstore ▸ hw.cascaded
  placed := by
    intro j e hj
    rcases getElem?_set_cases hj with ⟨rfl, rfl⟩ | ⟨hij, he⟩
    · exact hplaced
    · exact hothers j e hij he
  informed := by
    intro j e hj
    rcases getElem?_set_cases hj with ⟨rfl, rfl⟩ | ⟨hij, he⟩
    · exact hinformed
    · change e.Informed c'.directory c'.store
      rw [hdirectory, hstore]
      exact hw.informed j e he
  attempts := by
    intro key
    have hsame := Deed.recordsOn_congr hkeeps.call_eq hkeeps.isRecorded_eq key
    change c'.store.attemptsOf key = (w.deeds.set i d').countP (Deed.recordsOn key)
    rw [hstore, hw.attempts key, countP_set_of_eq _ hi hsame]
  solved := by
    intro key
    have hsame := Deed.solvesOn_congr hkeeps.call_eq hkeeps.isRecorded_eq key
    change (c'.store.isSolved key).toNat = (w.deeds.set i d').countP (Deed.solvesOn key)
    rw [hstore, hw.solved key, countP_set_of_eq _ hi hsame]
  made := by
    intro key
    have hset := tally_set (fun d => Store.madeOf key d.tidings) hi d'
    simp only [hkeeps.tidings_eq] at hset
    change (c'.store.has key).toNat = creations c'.outbox key +
      tally (fun d => Store.madeOf key d.tidings) (w.deeds.set i d')
    rw [hstore, houtbox, hw.made key]
    omega

/-- A commit under the lock counts for the key that it changes. -/
theorem Sound.commit (hw : w.Sound) (hi : w.deeds[i]? = some d) {schedule : Schedule}
    {store : Store} {deal : Deal} (hcall : d'.call = d.call) (hstage : d.stage = .inside)
    (hnext : d'.stage = .inside) (htidings : d.tidings = []) (hrecorded : d.isRecorded = false)
    (hfits : Deed.Fits d.call deal) (hchange : w.contest.store.Change d.key deal store d'.tidings)
    (hdeal : d'.isRecorded = deal.isAnswer)
    (hinformed : d'.Informed w.contest.directory store) :
    Sound ⟨{ w.contest with schedule := schedule, store := store }, w.deeds.set i d'⟩ where
  locks := hw.locks
  store := hchange.sound hw.store
  cascaded := hw.cascaded.change hw.store hchange
  placed := by
    intro j e hj
    rcases getElem?_set_cases hj with ⟨rfl, rfl⟩ | ⟨hij, he⟩
    · exact (hw.placed j d hi).congr hcall (hnext.trans hstage.symm)
    · exact hw.placed j e he
  informed := by
    intro j e hj
    rcases getElem?_set_cases hj with ⟨rfl, rfl⟩ | ⟨hij, he⟩
    · exact hinformed
    · -- Whoever has judged a try holds its lock, so that it is the try of another key.
      exact (hw.informed j e he).change hw.store hchange (hw.key_ne hi he hij hstage)
  attempts := by
    intro key
    have hset := countP_set (Deed.recordsOn key) hi d'
    have hbefore : d.recordsOn key = false := by simp [Deed.recordsOn, hrecorded]
    have hafter : d'.recordsOn key = (deal.isAnswer && decide (d.key = key)) := by
      rw [Deed.recordsOn, hdeal, Deed.key_eq_of_call hcall]
    rw [hbefore, hafter] at hset
    change store.attemptsOf key = (w.deeds.set i d').countP (Deed.recordsOn key)
    rw [hchange.attemptsOf_eq hw.store key, hw.attempts key]
    by_cases hkey : key = d.key <;> cases hanswer : deal.isAnswer <;>
      simp [hkey, hanswer, eq_comm] at hset ⊢ <;> omega
  solved := by
    intro key
    have hset := countP_set (Deed.solvesOn key) hi d'
    have hbefore : d.solvesOn key = false := by simp [Deed.solvesOn, Deed.recordsOn, hrecorded]
    have hafter : d'.solvesOn key = (deal.isCorrect && decide (d.key = key)) := by
      rw [Deed.solvesOn, Deed.recordsOn, hdeal, Deed.key_eq_of_call hcall,
        Deed.isCorrect_eq_of_call hcall, hfits.isCorrect_eq]
      cases deal.isAnswer <;> cases d.isCorrect <;> simp
    rw [hbefore, hafter] at hset
    change (store.isSolved key).toNat = (w.deeds.set i d').countP (Deed.solvesOn key)
    rw [hchange.isSolved_eq hw.store key, hw.solved key]
    by_cases hkey : key = d.key <;> cases hcorrect : deal.isCorrect <;>
      simp [hkey, hcorrect, eq_comm] at hset ⊢ <;> omega
  made := by
    intro key
    have hset := tally_set (fun d => Store.madeOf key d.tidings) hi d'
    have hbefore : Store.madeOf key d.tidings = 0 := by rw [htidings]; rfl
    change (store.has key).toNat = creations w.contest.outbox key +
      tally (fun d => Store.madeOf key d.tidings) (w.deeds.set i d')
    rw [hchange.has_eq hw.store key, hw.made key]
    simp only [hbefore] at hset
    omega

/-- Whoever leaves hands the lock on and announces what it has made. -/
theorem Sound.leave (hw : w.Sound) (hi : w.deeds[i]? = some d) {p : Player}
    (hcall : d'.call = d.call) (hstage : d.stage = .inside) (hnext : d'.stage = .outside)
    (htidings : d'.tidings = []) (hrecorded : d'.isRecorded = d.isRecorded)
    (hinformed : d'.Informed w.contest.directory w.contest.store) :
    Sound ⟨{ w.contest with
      locks := w.contest.locks.leave d.key
      outbox := w.contest.outbox ++ d.tidings.map (·.announcement p) }, w.deeds.set i d'⟩ where
  locks := hw.locks.leave d.key
  store := hw.store
  cascaded := hw.cascaded
  placed := by
    have hholder := (Deed.placed_inside_iff hstage).1 (hw.placed i d hi)
    intro j e hj
    rcases getElem?_set_cases hj with ⟨rfl, rfl⟩ | ⟨hij, he⟩
    · exact .of_outside hnext
    · refine (hw.placed j e he).mono ?_ ?_
      · intro huses
        refine Lock.Registry.uses_leave hw.locks ?_ huses
        rw [hholder]
        simpa using Ne.symm hij
      · intro hinside hholds
        exact (Lock.Registry.holder?_leave (hw.key_ne hi he hij hstage hinside)).trans hholds
  informed := by
    intro j e hj
    rcases getElem?_set_cases hj with ⟨rfl, rfl⟩ | ⟨hij, he⟩
    · exact hinformed
    · exact hw.informed j e he
  attempts := by
    intro key
    have hsame := Deed.recordsOn_congr hcall hrecorded key
    change w.contest.store.attemptsOf key = (w.deeds.set i d').countP (Deed.recordsOn key)
    rw [hw.attempts key, countP_set_of_eq _ hi hsame]
  solved := by
    intro key
    have hsame := Deed.solvesOn_congr hcall hrecorded key
    change (w.contest.store.isSolved key).toNat = (w.deeds.set i d').countP (Deed.solvesOn key)
    rw [hw.solved key, countP_set_of_eq _ hi hsame]
  made := by
    intro key
    have hset := tally_set (fun d => Store.madeOf key d.tidings) hi d'
    have hafter : Store.madeOf key d'.tidings = 0 := by rw [htidings]; rfl
    simp only [hafter] at hset
    change (w.contest.store.has key).toNat = creations (_ ++ _) key +
      tally (fun d => Store.madeOf key d.tidings) (w.deeds.set i d')
    rw [creations_append, hw.made key]
    omega

/-- Every stride of a call keeps a crowd sound. -/
theorem Sound.stride (hw : w.Sound) (hi : w.deeds[i]? = some d)
    (h : d.Stride (.caller i) w.contest d' c') (hinformed : d'.Informed c'.directory c'.store) :
    Sound ⟨c', w.deeds.set i d'⟩ := by
  have hplaced := hw.placed i d hi
  cases h with
  | read hkeeps hstage =>
    exact hw.keep hi hkeeps rfl rfl rfl hinformed hw.locks (hplaced.congr hkeeps.call_eq hstage)
      fun j e _ => hw.placed j e
  | entered hkeeps hstage hnext =>
    have hkey := Deed.key_eq_of_call hkeeps.call_eq
    refine hw.keep hi hkeeps rfl rfl rfl hinformed (hw.locks.enter d.key (.caller i)) ?_ ?_
    · by_cases hholds : (w.contest.enter d.key (.caller i)).locks.holds d.key (.caller i) = true
      · rw [if_pos hholds] at hnext
        rw [Deed.placed_inside_iff hnext, hkey]
        simpa [Lock.Registry.holds] using hholds
      · rw [if_neg hholds] at hnext
        rw [Deed.placed_waiting_iff hnext, hkey]
        exact Lock.Registry.uses_enter_self hw.locks d.key (.caller i)
    · intro j e _ hj
      exact (hw.placed j e hj).mono (Lock.Registry.uses_enter hw.locks (.caller i))
        fun _ => Lock.Registry.holder?_enter hw.locks (.caller i)
  | admitted hkeeps hstage hholds hnext =>
    refine hw.keep hi hkeeps rfl rfl rfl hinformed hw.locks ?_ fun j e _ => hw.placed j e
    rw [Deed.placed_inside_iff hnext, Deed.key_eq_of_call hkeeps.call_eq]
    simpa [Lock.Registry.holds] using hholds
  | withdrawn hkeeps hstage hholds hnext =>
    have huse := (Deed.placed_waiting_iff hstage).1 hplaced
    have hnot : w.contest.locks.holder? d.key ≠ some (.caller i) := by
      simpa [Lock.Registry.holds] using hholds
    refine hw.keep hi hkeeps rfl rfl rfl hinformed (hw.locks.withdraw huse hnot)
      (.of_outside hnext) ?_
    intro j e hij hj
    refine (hw.placed j e hj).mono ?_ ?_
    · exact Lock.Registry.uses_withdraw hw.locks huse hnot (by simpa using hij)
    · intro _ hholds
      exact (Lock.Registry.holder?_withdraw hw.locks huse hnot e.key).trans hholds
  | committed hcall hstage hnext htidings hrecorded hfits hmoment hchange hdeal =>
    exact hw.commit hi hcall hstage hnext htidings hrecorded hfits hchange hdeal hinformed
  | left hcall hstage hnext htidings hover hrecorded hplayer =>
    exact hw.leave hi hcall hstage hnext htidings hrecorded hinformed

/-- Every move keeps a crowd sound. -/
theorem Sound.step (hw : w.Sound) (m : Move) : (w.step m).Sound := by
  cases m with
  | clock now => exact ⟨hw.1, hw.2, hw.3, hw.4, hw.5, hw.6, hw.7, hw.8⟩
  | turn i =>
    cases hi : w.deeds[i]? with
    | none =>
      rw [step_turn_of_none hi]
      exact hw
    | some d =>
      rw [step_turn_of_some hi]
      obtain ⟨hstride, hinformed⟩ :=
        Deed.stride_advance (.caller i) hw.store hw.cascaded (hw.informed i d hi)
      exact hw.stride hi hstride hinformed

/-- Every run keeps a crowd sound. -/
theorem Sound.run (hw : w.Sound) (moves : List Move) : (w.run moves).Sound := by
  induction moves generalizing w with
  | nil => exact hw
  | cons m rest ih => exact ih (hw.step m)

/-- Whatever the order of moves, calls that start without tries are sound together. -/
theorem sound_run (c : Contest) (calls : List (Opening ⊕ Submission)) (moves : List Move) :
    ((begin c calls).run moves).Sound := (sound_begin c calls).run moves

end Crowd

end PuzzleContest
