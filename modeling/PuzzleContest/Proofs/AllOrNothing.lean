import PuzzleContest.Proofs.Crowd
import PuzzleContest.Proofs.Lodging
import PuzzleContest.Proofs.Season

/-!
# All or nothing

A submission, or an answer on its way through the gates and the catalog to a submission, has two ends.
If it fails, whatever the reason, the tries, the announcements and the locks are what they were.  If it
returns, one try has one more attempt, a correct answer to a first step has made the try of the second
one, and nothing else of the tries is different.

Main results:

- `Contest.Reachable`: the contests that calls bring about, one after another or alternating.
- `Contest.Counts`: what one more answer makes of a contest, field by field.
- `Contest.Becomes.counts`: a change that answers a key is of this kind.
- `Contest.allOrNothing_of_reachable`: the two ends of submissions and answers.
-/

namespace PuzzleContest

namespace Contest

variable {c c' : Contest}

/-! ## The two ends of a call -/

/-- What one more answer on a key makes of a contest, when it goes to the try `row` and makes `t` of
it. -/
structure Counts (c : Contest) (key : Try.Key) (answer : String) (correct : Bool) (row t : Try Nat)
    (c' : Contest) : Prop where
  /-- The key has one try, which is unfinished. -/
  only_row : (c.store.tries.filter fun u => u.key = key) = [row]
  unfinished : row.finish = none
  /-- It has one more attempt, and a correct answer finishes it. -/
  entry : t = { row with
    attempts := row.attempts + 1
    lastAnswer := some answer
    lastMove := some c.now
    finish := if correct then some c.now else none
    score := t.score }
  /-- A correct answer earns a score, and any other one leaves the score as it is. -/
  score : if correct then
      Score.score? row.level key.index key.step row.start c.now t.attempts = some t.score
    else t.score = row.score
  /-- All other tries stay, and exactly after a correct answer to a first step there is one more. -/
  tries : c'.store.tries = (c.store.tries.map fun u => if u = row then t else u) ++
    if correct ∧ key.step = firstStep then [Store.fresh c.store.issued key.next row.level c.now]
    else []
  /-- The same is announced. -/
  announced : ∃ p, c.directory.player? key.player = some p ∧ c'.outbox = c.outbox ++
    ⟨key.competition, ⟨t, some p⟩, .changed⟩ ::
      if correct ∧ key.step = firstStep then
        [⟨key.competition, ⟨Store.fresh c.store.issued key.next row.level c.now, some p⟩, .made⟩]
      else []

/-- The two ends of a call that answers a key: it fails, and the tries, the announcements and the locks
are what they were; or it returns, and its answer has been counted. -/
def AllOrNothing (c : Contest) (key : Try.Key) (answer : String) :
    Except Failure Verdict × Contest → Prop
  | (.error _, c') =>
    c'.store = c.store ∧ c'.outbox = c.outbox ∧ c'.locks.entries = c.locks.entries
  | (.ok v, c') =>
    (∃ row, c.Counts key answer v.correct row v.entry c') ∧ c'.locks.entries = c.locks.entries

/-- A change that answers a key counts one more answer. -/
theorem Becomes.counts {key : Try.Key} {answer : String} {correct : Bool} {t : Try Nat}
    (hs : c.store.Sound) (h : c.Becomes (some (key, .answer c.now answer correct)) c')
    (hfind : c'.store.find? key = some t) : ∃ row, c.Counts key answer correct row t c' := by
  cases h with
  | @changed _ _ _ tidings p hdirectory hplan hnow hmoment hplayer hchange houtbox =>
    rcases hchange.answered_tries hs with ⟨row, u, hrow, hopen, hanswer, htries, htidings⟩
    have hu := Try.answered_of_eq_some hanswer
    have hrowKey := Store.key_of_find? hrow
    have hukey : u.key = key := hu.key_eq.trans hrowKey
    have hut : u = t := by
      have hmem : (u, News.changed) ∈ tidings := by
        rw [htidings]
        exact List.mem_cons_self
      have hufind := hchange.find?_of_mem hs hmem
      simp only [hukey] at hufind
      rw [hufind, Option.some.injEq] at hfind
      exact hfind
    subst hut
    have hunfinished : row.finish = none := by simpa [Try.isFinished] using hopen
    rcases Try.eq_of_answered? hanswer with ⟨hentry, hscore⟩
    rw [hunfinished] at hentry
    rw [hrowKey] at hscore
    refine ⟨row, hs.filter_key hrow, hunfinished, hentry, hscore, htries, p, hplayer, ?_⟩
    rw [houtbox, htidings]
    by_cases hnext : correct = true ∧ key.step = firstStep
    · simp [hnext, Store.Tiding.announcement, hukey, Store.fresh, Try.Key.next]
    · simp [hnext, Store.Tiding.announcement, hukey]

/-- The two ends of a submission. -/
theorem allOrNothing_submission (me : Holder) (s : Submission) (hs : c.store.Sound)
    (hc : c.store.Cascaded) (hme : c.Admits s.key me) :
    c.AllOrNothing s.key s.answer (((s.run me).map (Verdict.mk s.correct)) c) := by
  have hlocks := (s.run_around hs hc hme).1.entries_eq
  rcases s.run_becomes me hs hc with ⟨e, hresult, hsame⟩ | ⟨t, hresult, hbecomes⟩
  · cases hsame with
    | same hagrees =>
      simp only [Action.map, hresult, Except.map, AllOrNothing]
      exact ⟨hagrees.store_eq, hagrees.outbox_eq, hlocks⟩
  · simp only [Action.map, hresult, Except.map, AllOrNothing]
    exact ⟨hbecomes.counts hs (s.find?_run me hs hc hresult), hlocks⟩

/-- The two ends of an answer. -/
theorem allOrNothing_attempt (me : Holder) (a : Attempt) (hs : c.store.Sound)
    (hc : c.store.Cascaded) (hme : c.Admits a.key me) :
    c.AllOrNothing a.key a.answer (a.play me c) := by
  have hlocks := (a.play_around hs hc hme).entries_eq
  rcases a.play_becomes me hs hc with ⟨e, hresult, hsame⟩ | ⟨v, hresult, hbecomes⟩
  · cases hsame with
    | same hagrees =>
      cases hplay : a.play me c with
      | mk result c' =>
        rw [hplay] at hresult hagrees hlocks
        change result = .error e at hresult
        subst hresult
        exact ⟨hagrees.store_eq, hagrees.outbox_eq, hlocks⟩
  · have hfind := Attempt.find?_play hs hc hresult
    cases hplay : a.play me c with
    | mk result c' =>
      rw [hplay] at hresult hbecomes hfind hlocks
      change result = .ok v at hresult
      subst hresult
      exact ⟨hbecomes.counts hs hfind, hlocks⟩

/-! ## Reachable contests -/

/-- The contests that are brought about from one without tries: by calls whose steps alternate in any
order, and from there by whole calls and by changes of what lies around the tries. -/
inductive Reachable : Contest → Prop where
  | crowd (c : Contest) (calls : List (Opening ⊕ Submission)) (moves : List Crowd.Move) :
      Reachable ((Crowd.begin c calls).run moves).contest
  | after {c : Contest} (h : Reachable c) (e : Event) : Reachable (c.after e)

theorem Reachable.sound (h : c.Reachable) : c.store.Sound ∧ c.store.Cascaded := by
  induction h with
  | crowd c calls moves =>
    have hcrowd := Crowd.sound_run c calls moves
    exact ⟨hcrowd.store, hcrowd.cascaded⟩
  | after h e ih => exact sound_after ih.1 ih.2 e

/-- In every reachable contest, whatever the catalog, the clock and the storage do and whoever holds
or awaits locks, a submission and an answer of a newcomer end in one of the two ways. -/
theorem allOrNothing_of_reachable (h : c.Reachable) (hlocks : c.locks.Reached) (me : Holder) :
    (∀ s : Submission, ¬c.locks.Uses s.key me →
      c.AllOrNothing s.key s.answer (((s.run me).map (Verdict.mk s.correct)) c)) ∧
    ∀ a : Attempt, ¬c.locks.Uses a.key me → c.AllOrNothing a.key a.answer (a.play me c) := by
  rcases h.sound with ⟨hs, hc⟩
  refine ⟨fun s hnew => ?_, fun a hnew => ?_⟩
  · exact allOrNothing_submission me s hs hc ⟨hlocks.orderly, hnew⟩
  · exact allOrNothing_attempt me a hs hc ⟨hlocks.orderly, hnew⟩

/-- While somebody is inside on the second step of a puzzle, a newcomer solves the first one, which
makes the try that the other one is looking for. -/
theorem allOrNothing_sample :
    let other : Submission := ⟨"cup", "player", "knots", 0, lastStep, "7", false⟩
    let solution : Submission := ⟨"cup", "player", "knots", 0, firstStep, "42", true⟩
    let crowd := (Crowd.begin sample [.inl sampleOpening, .inr other]).run
      (List.replicate 10 (.turn 0) ++ List.replicate 3 (.turn 1))
    crowd.contest.Reachable ∧ crowd.contest.locks.Reached ∧
      ¬crowd.contest.locks.Uses solution.key (.caller 2) ∧
      crowd.contest.AllOrNothing solution.key solution.answer
        (((solution.run (.caller 2)).map (Verdict.mk true)) crowd.contest) ∧
      (solution.run (.caller 2) crowd.contest).2.store.tries.map (·.attempts) = [1, 0] ∧
      (solution.run (.caller 2) crowd.contest).2.locks.entries.map (·.1) = [other.key] := by
  intro other solution crowd
  have hreachable : crowd.contest.Reachable := .crowd ..
  have hlocks : crowd.contest.locks =
      (((({} : Lock.Registry Try.Key Holder).enter solution.key (.caller 0)).leave
        solution.key).enter other.key (.caller 1)) := by
    decide +kernel
  have hreached : crowd.contest.locks.Reached := by
    rw [hlocks]
    exact .enter (.leave (.enter .empty _ _) _) _ _
  have hnew : ¬crowd.contest.locks.Uses solution.key (.caller 2) := by
    rintro ⟨e, he, -⟩
    have hfree : crowd.contest.locks.find? solution.key = none := by decide +kernel
    rw [hfree] at he
    exact absurd he (by simp)
  exact ⟨hreachable, hreached, hnew,
    (allOrNothing_of_reachable hreachable hreached (.caller 2)).1 solution hnew,
    by decide +kernel, by decide +kernel⟩

end Contest

end PuzzleContest
