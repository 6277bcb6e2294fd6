import PuzzleContest.Contest.Submission
import PuzzleContest.Proofs.Store

/-!
# Changes of the store

Whatever happens to tries is one of two deals: the first try of a puzzle is opened, or a try is
answered.  A deal changes the store in one commit and leaves tidings, which are announced later: the
tries that it made or changed, in order.

Main results:

- `Store.Change`: what a deal on a key makes of a store, and its tidings.
- `Store.Change.sound`: a change keeps a store sound.
- `Store.Change.fate`: to each key a change means nothing, a new try, or one more answer to its try.
- `Store.Change.attemptsOf_eq`, `isSolved_eq`, `has_eq`: the effect of a change on the three things
  that are counted of a key.
-/

namespace PuzzleContest

/-! ## Answered tries -/

namespace Try

variable {ι : Type} {t u : Try ι} {now : Moment} {answer : String} {correct : Bool}

/-- The key of the second step of the same puzzle. -/
def Key.next (key : Key) : Key := { key with step := lastStep }

/-- The key of a next step is no key of a first step. -/
theorem Key.next_ne {k key : Key} (hkey : key.step = firstStep) : k.next ≠ key := by
  intro h
  have hlast : lastStep = key.step := congrArg Key.step h
  rw [hkey] at hlast
  exact absurd hlast (by decide)

/-- Keys of first steps are told apart by the keys of their next steps. -/
theorem Key.next_inj {k key : Key} (hk : k.step = firstStep) (hkey : key.step = firstStep)
    (h : k.next = key.next) : k = key := by
  cases k
  cases key
  simp only [Key.next, Key.mk.injEq] at h
  simp only at hk hkey
  simp [h, hk, hkey]

/-- What one more answer does to a try, apart from the score. -/
structure Answered (t u : Try ι) (now : Moment) (answer : String) (correct : Bool) : Prop where
  id_eq : u.id = t.id
  key_eq : u.key = t.key
  level_eq : u.level = t.level
  start_eq : u.start = t.start
  attempts_eq : u.attempts = t.attempts + 1
  lastAnswer_eq : u.lastAnswer = some answer
  lastMove_eq : u.lastMove = some now
  finish_eq : u.finish = if correct then some now else t.finish

theorem answered_of_eq_some (h : t.answered? now answer correct = some u) :
    t.Answered u now answer correct := by
  unfold answered? at h
  cases correct with
  | false =>
    simp only [Bool.false_eq_true, if_false, Option.some.injEq] at h
    subst h
    constructor <;> rfl
  | true =>
    simp only [if_true, Option.map_eq_some_iff] at h
    obtain ⟨score, -, rfl⟩ := h
    constructor <;> rfl

/-- What one more answer does to a try, with the score that a correct one earns. -/
theorem eq_of_answered? (h : t.answered? now answer correct = some u) :
    u = { t with
      attempts := t.attempts + 1
      lastAnswer := some answer
      lastMove := some now
      finish := if correct then some now else t.finish
      score := u.score } ∧
    if correct then
      Score.score? t.level t.key.index t.key.step t.start now u.attempts = some u.score
    else u.score = t.score := by
  unfold answered? at h
  cases correct with
  | false =>
    simp only [Bool.false_eq_true, if_false, Option.some.injEq] at h
    subst h
    exact ⟨rfl, rfl⟩
  | true =>
    simp only [if_true, Option.map_eq_some_iff] at h
    rcases h with ⟨score, hscore, rfl⟩
    exact ⟨rfl, hscore⟩

theorem Answered.isFinished_eq (h : t.Answered u now answer correct) (hopen : t.isFinished = false) :
    u.isFinished = correct := by
  have hnone : t.finish = none := by simpa [isFinished] using hopen
  cases correct <;> simp [isFinished, h.finish_eq, hnone]

end Try

/-- What can be done to the try of a key. -/
inductive Deal where
  /-- The first try of a puzzle is opened. -/
  | opening (level : String) (start : Moment)
  /-- A try is answered. -/
  | answer (now : Moment) (answer : String) (correct : Bool)
deriving DecidableEq, Repr

namespace Deal

/-- Whether a try is answered. -/
def isAnswer : Deal → Bool
  | opening _ _ => false
  | answer _ _ _ => true

/-- Whether a try is answered correctly. -/
def isCorrect : Deal → Bool
  | opening _ _ => false
  | answer _ _ correct => correct

/-- The time at which a try is opened or answered. -/
def moment : Deal → Moment
  | opening _ start => start
  | answer now _ _ => now

theorem isAnswer_of_isCorrect {deal : Deal} (h : deal.isCorrect = true) : deal.isAnswer = true := by
  cases deal with
  | opening level start => exact absurd h (by simp [isCorrect])
  | answer now answer correct => rfl

end Deal

namespace Store

/-- A try that was made or changed, and which of the two. -/
abbrev Tiding := Try Nat × News

/--
What a deal on a key makes of a store, and the tidings it leaves.  Only a correct answer to the first
step makes a second try, for the next step of the puzzle.
-/
inductive Change (s : Store) (key : Try.Key) : Deal → Store → List Tiding → Prop where
  | opened {level : String} {start : Moment} {t : Try Nat} {s' : Store}
      (hstep : key.step = firstStep) (hindex : holds key.index = true)
      (hadd : s.add? key level start = some (t, s')) :
      Change s key (.opening level start) s' [(t, .made)]
  | counted {row t : Try Nat} {now : Moment} {answer : String} {correct : Bool}
      (hrow : s.find? key = some row) (hopen : row.isFinished = false)
      (hanswer : row.answered? now answer correct = some t)
      (hlast : ¬(correct = true ∧ key.step = firstStep)) :
      Change s key (.answer now answer correct) (s.replace t) [(t, .changed)]
  | solved {row t next : Try Nat} {now : Moment} {answer : String} {s' : Store}
      (hstep : key.step = firstStep)
      (hrow : s.find? key = some row) (hopen : row.isFinished = false)
      (hanswer : row.answered? now answer true = some t)
      (hadd : (s.replace t).add? key.next t.level now = some (next, s')) :
      Change s key (.answer now answer true) s' [(t, .changed), (next, .made)]

/-- The tidings of a key. -/
def tidingsOf (key : Try.Key) (tidings : List Tiding) : List Tiding :=
  tidings.filter fun n => n.1.key = key

/-- How often tidings tell that a try of a key was made. -/
def madeOf (key : Try.Key) (tidings : List Tiding) : Nat :=
  (tidingsOf key tidings).countP fun n => n.2 = .made

variable {s s' : Store} {key : Try.Key} {deal : Deal} {tidings : List Tiding}

theorem find?_replace_answered {row t : Try Nat} {now : Moment} {answer : String} {correct : Bool}
    (hs : s.Sound) (hrow : s.find? key = some row)
    (hanswer : row.answered? now answer correct = some t) :
    (s.replace t).Sound ∧ ∀ k, (s.replace t).find? k = if k = key then some t else s.find? k := by
  have ht := Try.answered_of_eq_some hanswer
  have hkey : t.key = key := ht.key_eq.trans (key_of_find? hrow)
  rw [← hkey] at hrow
  refine ⟨hs.replace hrow ht.id_eq, ?_⟩
  rw [← hkey]
  exact find?_replace hs hrow ht.id_eq

namespace Change

/-- A change keeps a store sound. -/
theorem sound (hs : s.Sound) (h : s.Change key deal s' tidings) : s'.Sound := by
  cases h with
  | opened hstep hindex hadd => exact hs.add hindex hadd
  | counted hrow hopen hanswer hlast => exact (find?_replace_answered hs hrow hanswer).1
  | solved hstep hrow hopen hanswer hadd =>
    have hindex : holds key.next.index = true := by
      change holds key.index = true
      rw [← key_of_find? hrow]
      exact hs.storable _ (mem_of_find? hrow)
    exact (find?_replace_answered hs hrow hanswer).1.add hindex hadd

/-- A change leaves no tries but the old ones and those of its key and of the next one. -/
theorem mem_or_key (h : s.Change key deal s' tidings) {t : Try Nat} (ht : t ∈ s'.tries) :
    t ∈ s.tries ∨ t.key = key ∨ t.key = key.next := by
  have hreplace : ∀ {row u : Try Nat} {now : Moment} {answer : String} {correct : Bool},
      s.find? key = some row → row.answered? now answer correct = some u →
        t ∈ (s.replace u).tries → t ∈ s.tries ∨ t.key = key ∨ t.key = key.next := by
    intro row u now answer correct hrow hanswer hmem
    rcases List.mem_map.1 hmem with ⟨v, hv, rfl⟩
    by_cases hid : v.id = u.id
    · rw [if_pos hid, (Try.answered_of_eq_some hanswer).key_eq]
      exact .inr (.inl (key_of_find? hrow))
    · rw [if_neg hid]
      exact .inl hv
  cases h with
  | opened hstep hindex hadd =>
    rcases add?_eq_some_iff.1 hadd with ⟨-, hfresh, rfl⟩
    rcases List.mem_append.1 ht with hold | hnew
    · exact .inl hold
    · rw [List.mem_singleton.1 hnew, hfresh]
      exact .inr (.inl rfl)
  | counted hrow hopen hanswer hlast => exact hreplace hrow hanswer ht
  | solved hstep hrow hopen hanswer hadd =>
    rcases add?_eq_some_iff.1 hadd with ⟨-, hfresh, rfl⟩
    rcases List.mem_append.1 ht with hold | hnew
    · exact hreplace hrow hanswer hold
    · rw [List.mem_singleton.1 hnew, hfresh]
      exact .inr (.inr rfl)

/-! ## The fate of a key -/

/-- What a change means to one key: nothing, a new try, or one more answer to its try. -/
inductive Fate (s : Store) (key : Try.Key) (deal : Deal) (s' : Store) (tidings : List Tiding)
    (k : Try.Key) : Prop where
  | untouched (hfind : s'.find? k = s.find? k) (htold : tidingsOf k tidings = [])
      (hdeal : k = key → deal.isAnswer = false)
  | made {u : Try Nat} {level : String} {start : Moment}
      (hnone : s.find? k = none) (hfresh : u = fresh s.issued k level start)
      (hfind : s'.find? k = some u) (htold : tidingsOf k tidings = [(u, .made)])
      (hdeal : k = key → deal.isAnswer = false)
  | answered {row u : Try Nat} {now : Moment} {answer : String} {correct : Bool}
      (hkey : k = key) (hdeal : deal = .answer now answer correct)
      (hrow : s.find? k = some row) (hopen : row.isFinished = false)
      (hanswer : row.answered? now answer correct = some u)
      (hfind : s'.find? k = some u) (htold : tidingsOf k tidings = [(u, .changed)])

/-- Every key has one of the three fates. -/
theorem fate (hs : s.Sound) (h : s.Change key deal s' tidings) (k : Try.Key) :
    Fate s key deal s' tidings k := by
  cases h with
  | @opened level start t s' hstep hindex hadd =>
    obtain ⟨hnone, ht, -⟩ := add?_eq_some_iff.1 hadd
    have hkey : t.key = key := congrArg Try.key ht
    by_cases hk : k = key
    · subst hk
      refine .made hnone ht ?_ ?_ (fun _ => rfl)
      · rw [find?_add hadd, if_pos rfl]
      · simp [tidingsOf, hkey]
    · have hne : ¬key = k := fun h => hk h.symm
      refine .untouched ?_ ?_ (fun h => absurd h hk)
      · rw [find?_add hadd, if_neg hk]
      · simp [tidingsOf, hkey, hne]
  | @counted row t now answer correct hrow hopen hanswer hlast =>
    have hkey : t.key = key := (Try.answered_of_eq_some hanswer).key_eq.trans (key_of_find? hrow)
    have hfind := (find?_replace_answered hs hrow hanswer).2 k
    by_cases hk : k = key
    · subst hk
      rw [if_pos rfl] at hfind
      exact .answered rfl rfl hrow hopen hanswer hfind (by simp [tidingsOf, hkey])
    · have hne : ¬key = k := fun h => hk h.symm
      rw [if_neg hk] at hfind
      exact .untouched hfind (by simp [tidingsOf, hkey, hne]) (fun h => absurd h hk)
  | @solved row t next now answer s' hstep hrow hopen hanswer hadd =>
    obtain ⟨hnone, hnext, -⟩ := add?_eq_some_iff.1 hadd
    have hkey : t.key = key := (Try.answered_of_eq_some hanswer).key_eq.trans (key_of_find? hrow)
    have hnextKey : next.key = key.next := congrArg Try.key hnext
    have hfind := (find?_replace_answered hs hrow hanswer).2 k
    -- Two keys are concerned: the next one gets a try, and the key itself an answer.
    by_cases hk' : k = key.next
    · have hne : k ≠ key := by
        rw [hk']
        exact Try.Key.next_ne hstep
      subst hk'
      rw [(find?_replace_answered hs hrow hanswer).2, if_neg hne] at hnone
      refine .made hnone hnext ?_ ?_ (fun h => absurd h hne)
      · rw [find?_add hadd, if_pos rfl]
      · simp [tidingsOf, hkey, hnextKey, hne.symm]
    · have hne' : ¬key.next = k := fun h => hk' h.symm
      by_cases hk : k = key
      · subst hk
        rw [if_pos rfl] at hfind
        refine .answered rfl rfl hrow hopen hanswer ?_ ?_
        · rw [find?_add hadd, if_neg hk', hfind]
        · simp [tidingsOf, hkey, hnextKey, hne']
      · have hne : ¬key = k := fun h => hk h.symm
        rw [if_neg hk] at hfind
        refine .untouched ?_ ?_ (fun h => absurd h hk)
        · rw [find?_add hadd, if_neg hk', hfind]
        · simp [tidingsOf, hkey, hnextKey, hne, hne']

/-- A change forgets no try: a key that has one keeps it under the same number. -/
theorem id_kept (hs : s.Sound) (h : s.Change key deal s' tidings) {k : Try.Key} {row : Try Nat}
    (hrow : s.find? k = some row) : ∃ row', s'.find? k = some row' ∧ row'.id = row.id := by
  cases h.fate hs k with
  | untouched hfind htold hdeal => exact ⟨row, hfind.trans hrow, rfl⟩
  | made hnone hfresh hfind htold hdeal =>
    rw [hnone] at hrow
    exact absurd hrow (by simp)
  | @answered old u now answer correct hkey hdeal hold hopen hanswer hfind htold =>
    rw [hold, Option.some.injEq] at hrow
    exact ⟨u, hfind, hrow ▸ (Try.answered_of_eq_some hanswer).id_eq⟩

/-- The tries of other keys that were there stay as they are. -/
theorem find?_of_ne (hs : s.Sound) (h : s.Change key deal s' tidings) {k : Try.Key} {row : Try Nat}
    (hk : k ≠ key) (hrow : s.find? k = some row) : s'.find? k = some row := by
  cases h.fate hs k with
  | untouched hfind htold hdeal => exact hfind.trans hrow
  | made hnone hfresh hfind htold hdeal =>
    rw [hnone] at hrow
    exact absurd hrow (by simp)
  | answered hkey hdeal hold hopen hanswer hfind htold => exact absurd hkey hk

/-- A tiding is about a try that is there after the change. -/
theorem find?_of_mem (hs : s.Sound) (h : s.Change key deal s' tidings) {n : Tiding}
    (hn : n ∈ tidings) : s'.find? n.1.key = some n.1 := by
  have hmem : n ∈ tidingsOf n.1.key tidings := by simp [tidingsOf, hn]
  cases h.fate hs n.1.key with
  | untouched hfind htold hdeal =>
    rw [htold] at hmem
    exact absurd hmem List.not_mem_nil
  | made hnone hfresh hfind htold hdeal =>
    rw [htold] at hmem
    rw [hfind, List.mem_singleton.1 hmem]
  | answered hkey hdeal hrow hopen hanswer hfind htold =>
    rw [htold] at hmem
    rw [hfind, List.mem_singleton.1 hmem]

/-- What an answer makes of the tries, and what it tells of them. -/
theorem answered_tries {now : Moment} {answer : String} {correct : Bool} (hs : s.Sound)
    (h : s.Change key (.answer now answer correct) s' tidings) :
    ∃ row t, s.find? key = some row ∧ row.isFinished = false ∧
      row.answered? now answer correct = some t ∧
      let added := if correct ∧ key.step = firstStep then [fresh s.issued key.next row.level now]
        else []
      s'.tries = (s.tries.map fun u => if u = row then t else u) ++ added ∧
        tidings = (t, .changed) :: added.map fun u => (u, .made) := by
  cases h with
  | @counted row t _ _ _ hrow hopen hanswer hlast =>
    have hid := (Try.answered_of_eq_some hanswer).id_eq
    refine ⟨row, t, hrow, hopen, hanswer, ?_, by simp [hlast]⟩
    rw [if_neg hlast, List.append_nil]
    exact hs.tries_replace (mem_of_find? hrow) hid
  | @solved row t next _ _ _ hstep hrow hopen hanswer hadd =>
    have ht := Try.answered_of_eq_some hanswer
    rcases add?_eq_some_iff.1 hadd with ⟨-, hnext, hs'⟩
    rw [ht.level_eq] at hnext
    have hnext' : next = fresh s.issued key.next row.level now := hnext
    refine ⟨row, t, hrow, hopen, hanswer, ?_, by simp [hstep, hnext']⟩
    rw [if_pos ⟨rfl, hstep⟩, hs', ← hnext']
    simp only
    rw [hs.tries_replace (mem_of_find? hrow) ht.id_eq]

end Change

/-! ## What is counted of a key -/

/-- The attempts that the try of a key counts, if there is one. -/
def attemptsOf (s : Store) (key : Try.Key) : Int := ((s.find? key).map (·.attempts)).getD 0

/-- Whether the try of a key is there and finished. -/
def isSolved (s : Store) (key : Try.Key) : Bool := (s.find? key).any (·.isFinished)

/-- Whether there is a try of a key. -/
def has (s : Store) (key : Try.Key) : Bool := (s.find? key).isSome

/-- A change adds one attempt to the key that it answers. -/
theorem Change.attemptsOf_eq (hs : s.Sound) (h : s.Change key deal s' tidings) (k : Try.Key) :
    s'.attemptsOf k = s.attemptsOf k + if k = key ∧ deal.isAnswer then 1 else 0 := by
  unfold attemptsOf
  cases h.fate hs k with
  | untouched hfind htold hdeal =>
    rw [hfind, if_neg (by simpa using hdeal), Int.add_zero]
  | made hnone hfresh hfind htold hdeal =>
    rw [hfind, hnone, if_neg (by simpa using hdeal), hfresh]
    rfl
  | answered hkey hdeal hrow hopen hanswer hfind htold =>
    rw [hfind, hrow, if_pos ⟨hkey, by rw [hdeal]; rfl⟩]
    simp [(Try.answered_of_eq_some hanswer).attempts_eq]

/-- A change solves the key that it answers correctly, which was not solved before. -/
theorem Change.isSolved_eq (hs : s.Sound) (h : s.Change key deal s' tidings) (k : Try.Key) :
    (s'.isSolved k).toNat = (s.isSolved k).toNat + if k = key ∧ deal.isCorrect then 1 else 0 := by
  unfold isSolved
  cases h.fate hs k with
  | untouched hfind htold hdeal =>
    rw [hfind, if_neg, Nat.add_zero]
    rintro ⟨hk, hcorrect⟩
    exact Bool.false_ne_true ((hdeal hk).symm.trans (Deal.isAnswer_of_isCorrect hcorrect))
  | made hnone hfresh hfind htold hdeal =>
    rw [hfind, hnone, if_neg, hfresh]
    · rfl
    · rintro ⟨hk, hcorrect⟩
      exact Bool.false_ne_true ((hdeal hk).symm.trans (Deal.isAnswer_of_isCorrect hcorrect))
  | @answered row u now answer correct hkey hdeal hrow hopen hanswer hfind htold =>
    have hfinish := (Try.answered_of_eq_some hanswer).isFinished_eq hopen
    rw [hfind, hrow, hdeal, hkey]
    cases correct <;> simp [hopen, hfinish, Deal.isCorrect]

/-- A change makes the tries that its tidings call made, on keys that had none. -/
theorem Change.has_eq (hs : s.Sound) (h : s.Change key deal s' tidings) (k : Try.Key) :
    (s'.has k).toNat = (s.has k).toNat + madeOf k tidings := by
  unfold has madeOf
  cases h.fate hs k with
  | untouched hfind htold hdeal => simp [hfind, htold]
  | made hnone hfresh hfind htold hdeal => simp [hfind, hnone, htold]
  | answered hkey hdeal hrow hopen hanswer hfind htold => simp [hfind, hrow, htold]

end Store

end PuzzleContest
