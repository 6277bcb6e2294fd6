import PuzzleContest.Proofs.Solo

/-!
# Calls one after another

In a season calls of the attempt service and the submission service follow each other, each from its
beginning to its end, with any outcome.  Between them the clock, the cooldowns, the catalog, the locks
and the faults to come may change at will.

Main results:

- `Contest.season`, `Contest.course`: the contest after a list of events, and on the way.
- `Contest.after_cases`: an event makes nothing of the tries, or one change.
- `Contest.InOrder`: what holds of first and second steps, and what calls make of them.
- `Contest.inOrder_season`: it holds after every season that starts without tries.
-/

namespace PuzzleContest.Contest

/-- What lies around the tries of a contest. -/
structure Surroundings where
  plan : Cooldown.Plan
  now : Moment
  catalog : Catalog.Request → Catalog.Reply
  client : Catalog.Client
  lockTimeout : Int
  locks : Lock.Registry Try.Key Holder
  schedule : Schedule

/-- What happens to a contest. -/
inductive Event where
  | call (me : Holder) (call : Call)
  /-- A puzzle is opened with a level that cannot be stored. -/
  | unstorable (me : Holder) (o : Opening)
  /-- Everything around the tries changes. -/
  | around (x : Surroundings)

/-- The contest after one event. -/
def after (c : Contest) : Event → Contest
  | .call me call => (call.run me c).2
  | .unstorable me o => (o.playUnstorable me c).2
  | .around x => { c with
      plan := x.plan
      now := x.now
      catalog := x.catalog
      client := x.client
      lockTimeout := x.lockTimeout
      locks := x.locks
      schedule := x.schedule }

/-- The contest after a list of events. -/
def season (c : Contest) (events : List Event) : Contest := events.foldl after c

/-- The events of a season, each with the contest that it meets. -/
def course (c : Contest) : List Event → List (Contest × Event)
  | [] => []
  | e :: rest => (c, e) :: (c.after e).course rest

/-- A contest without tries, in which nothing has been announced. -/
def bare (c : Contest) : Contest := { c with store := {}, outbox := [] }

/-- The key on which an event records a submission, if it does. -/
def Event.recorded? (c : Contest) : Event → Option Try.Key
  | .call me x => x.recorded? (x.run me c).1
  | _ => none

variable {c c' : Contest}

theorem season_append (c : Contest) (before rest : List Event) :
    c.season (before ++ rest) = (c.season before).season rest := List.foldl_append

/-- An event makes nothing of the tries or one change, unless it lies around them. -/
theorem after_cases (hs : c.store.Sound) (hc : c.store.Cascaded) (e : Event) :
    (∃ x, e = .around x) ∨
      ∃ what, c.Becomes what (c.after e) ∧ e.recorded? c = Call.answered? what := by
  cases e with
  | around x => exact .inl ⟨x, rfl⟩
  | call me call => exact .inr (call.run_becomes me hs hc)
  | unstorable me o =>
    refine .inr ?_
    rcases Opening.becomes_of_middle (fun c => o.runUnstorable_becomes me) hs hc with h | h
    · exact ⟨_, h, rfl⟩
    · exact ⟨_, h, rfl⟩

theorem sound_after (hs : c.store.Sound) (hc : c.store.Cascaded) (e : Event) :
    (c.after e).store.Sound ∧ (c.after e).store.Cascaded := by
  rcases after_cases hs hc e with ⟨x, rfl⟩ | ⟨what, h, -⟩
  · exact ⟨hs, hc⟩
  · exact ⟨h.sound hs, h.cascaded hs hc⟩

theorem sound_season (hs : c.store.Sound) (hc : c.store.Cascaded) (events : List Event) :
    (c.season events).store.Sound ∧ (c.season events).store.Cascaded := by
  induction events generalizing c with
  | nil => exact ⟨hs, hc⟩
  | cons e rest ih =>
    have hafter := sound_after hs hc e
    exact ih hafter.1 hafter.2

/-! ## First and second steps -/

/-- What is made of a puzzle by a correct answer to its first step: there is no second step before,
and afterwards there is one that goes on where the first ended. -/
def Cascades (before after : Store) (first : Try.Key) : Prop :=
  (∀ t ∈ before.tries, t.key ≠ first.next) ∧
    ∃ one ∈ after.tries, ∃ two ∈ after.tries, one.key = first ∧ two.key = first.next ∧
      one.finish = some two.start ∧ two.level = one.level

/-- What holds of first and second steps. -/
structure InOrder (c : Contest) : Prop where
  /-- There are tries of these two steps only. -/
  steps : ∀ t ∈ c.store.tries, t.key.step = firstStep ∨ t.key.step = lastStep
  /-- A second step is there exactly when the first one has an end. -/
  second_iff : ∀ key : Try.Key, key.step = firstStep →
    ((∃ two ∈ c.store.tries, two.key = key.next) ↔
      ∃ one ∈ c.store.tries, one.key = key ∧ one.finish ≠ none)
  /-- It starts when the first one ended, and has its level. -/
  goes_on : ∀ one ∈ c.store.tries, ∀ two ∈ c.store.tries, one.key.step = firstStep →
    two.key = one.key.next → one.finish = some two.start ∧ two.level = one.level
  /-- A submission that finishes a first step makes the second one. -/
  submission : ∀ (me : Holder) (s : Submission) (t : Try Nat), s.step = firstStep →
    s.correct = true → (s.run me c).1 = .ok t → Cascades c.store (s.run me c).2.store s.key
  /-- So does an answer that the catalog finds correct. -/
  attempt : ∀ (me : Holder) (a : Attempt) (v : Verdict), a.step = firstStep →
    (a.play me c).1 = .ok v → v.correct = true → Cascades c.store (a.play me c).2.store a.key
  /-- Whatever finishes a first step makes the second one. -/
  event : ∀ (e : Event) (key : Try.Key), key.step = firstStep →
    (∃ one ∈ c.store.tries, one.key = key ∧ one.finish = none) →
    (∃ one ∈ (c.after e).store.tries, one.key = key ∧ one.finish ≠ none) →
      Cascades c.store (c.after e).store key

theorem cascades_of_change {s s' : Store} {key : Try.Key} {now : Moment} {answer : String}
    {tidings : List Store.Tiding} (hs : s.Sound) (hstep : key.step = firstStep)
    (h : s.Change key (.answer now answer true) s' tidings) : Cascades s s' key := by
  cases h with
  | counted hrow hopen hanswer hlast => exact absurd ⟨rfl, hstep⟩ hlast
  | @solved row one two _ _ _ _ hrow hopen hanswer hadd =>
    have hne : key.next ≠ key := Try.Key.next_ne hstep
    have hreplace := (Store.find?_replace_answered hs hrow hanswer).2
    have hfinish := (Try.answered_of_eq_some hanswer).finish_eq
    rcases Store.add?_eq_some_iff.1 hadd with ⟨hnone, hsecond, -⟩
    rw [hreplace, if_neg hne] at hnone
    have hone : s'.find? key = some one := by
      rw [Store.find?_add hadd, if_neg hne.symm, hreplace, if_pos rfl]
    have htwo : s'.find? key.next = some two := by rw [Store.find?_add hadd, if_pos rfl]
    refine ⟨Store.find?_eq_none_iff.1 hnone, one, Store.mem_of_find? hone, two,
      Store.mem_of_find? htwo, Store.key_of_find? hone, Store.key_of_find? htwo, ?_, ?_⟩
    · rw [hfinish, hsecond]
      rfl
    · rw [hsecond]
      rfl

/-- A correct answer to a first step makes the second one. -/
theorem Becomes.cascades {key : Try.Key} {now : Moment} {answer : String} (hs : c.store.Sound)
    (h : c.Becomes (some (key, .answer now answer true)) c') (hstep : key.step = firstStep) :
    Cascades c.store c'.store key := by
  cases h with
  | changed hdirectory hplan hnow hmoment hplayer hchange houtbox =>
    exact cascades_of_change hs hstep hchange

theorem exists_second_iff (hs : c.store.Sound) (hc : c.store.Cascaded) {key : Try.Key}
    (hstep : key.step = firstStep) : (∃ two ∈ c.store.tries, two.key = key.next) ↔
      ∃ one ∈ c.store.tries, one.key = key ∧ one.finish ≠ none := by
  constructor
  · rintro ⟨two, htwo, hkey⟩
    have hfind := (Store.find?_eq_some_iff hs).2 ⟨htwo, hkey⟩
    rcases hc.awaited key two hstep hfind with ⟨one, hone, hfinished⟩
    refine ⟨one, Store.mem_of_find? hone, Store.key_of_find? hone, ?_⟩
    intro hnone
    simp [Try.isFinished, hnone] at hfinished
  · rintro ⟨one, hone, hkey, hfinish⟩
    have hfind := (Store.find?_eq_some_iff hs).2 ⟨hone, hkey⟩
    rcases Option.ne_none_iff_exists'.1 hfinish with ⟨stop, hstop⟩
    rcases hc.opened key one stop hstep hfind hstop with ⟨two, htwo, -, -⟩
    exact ⟨two, Store.mem_of_find? htwo, Store.key_of_find? htwo⟩

theorem goes_on (hs : c.store.Sound) (hc : c.store.Cascaded) {one two : Try Nat}
    (hone : one ∈ c.store.tries) (htwo : two ∈ c.store.tries) (hstep : one.key.step = firstStep)
    (hkey : two.key = one.key.next) : one.finish = some two.start ∧ two.level = one.level := by
  have hfirst := (Store.find?_eq_some_iff hs).2 ⟨hone, rfl⟩
  have hsecond := (Store.find?_eq_some_iff hs).2 ⟨htwo, hkey⟩
  rcases hc.awaited one.key two hstep hsecond with ⟨first, hfind, hfinished⟩
  rw [hfirst, Option.some.injEq] at hfind
  rw [← hfind] at hfinished
  rcases Option.isSome_iff_exists.1 hfinished with ⟨stop, hstop⟩
  rcases hc.opened one.key one stop hstep hfirst hstop with ⟨second, hfind', hstart, hlevel⟩
  rw [hsecond, Option.some.injEq] at hfind'
  rw [hfind', hstop, hstart]
  exact ⟨rfl, hlevel⟩

/-- In a contest whose store is sound and cascaded, steps are in order. -/
theorem inOrder (hs : c.store.Sound) (hc : c.store.Cascaded) : c.InOrder where
  steps := hc.steps
  second_iff key hstep := exists_second_iff hs hc hstep
  goes_on one hone two htwo hstep hkey := goes_on hs hc hone htwo hstep hkey
  submission := by
    intro me s t hstep hcorrect hresult
    rcases s.run_becomes me hs hc with ⟨e, herror, -⟩ | ⟨u, -, hbecomes⟩
    · rw [hresult] at herror
      exact absurd herror (by simp)
    · unfold Submission.deal at hbecomes
      rw [hcorrect] at hbecomes
      exact hbecomes.cascades hs hstep
  attempt := by
    intro me a v hstep hresult hcorrect
    rcases a.play_becomes me hs hc with ⟨e, herror, -⟩ | ⟨u, hok, hbecomes⟩
    · rw [hresult] at herror
      exact absurd herror (by simp)
    · rw [hresult, Except.ok.injEq] at hok
      rw [← hok, hcorrect] at hbecomes
      exact hbecomes.cascades hs hstep
  event := by
    intro e key hstep hbefore hafter
    rcases sound_after hs hc e with ⟨hs', hc'⟩
    rcases hbefore with ⟨one, hone, hkey, hopen⟩
    refine ⟨?_, ?_⟩
    · intro two htwo hnext
      have hends := (goes_on hs hc hone htwo (hkey ▸ hstep) (hkey ▸ hnext)).1
      rw [hopen] at hends
      exact absurd hends (by simp)
    · rcases hafter with ⟨one', hone', hkey', hfinish⟩
      rcases (exists_second_iff hs' hc' hstep).2 ⟨one', hone', hkey', hfinish⟩ with
        ⟨two, htwo, hnext⟩
      have hends := goes_on hs' hc' hone' htwo (hkey' ▸ hstep) (hkey' ▸ hnext)
      exact ⟨one', hone', two, htwo, hkey', hnext, hends⟩

/-- After every season that starts without tries, steps are in order. -/
theorem inOrder_season (c : Contest) (events : List Event) : (c.bare.season events).InOrder := by
  have hseason := sound_season (c := c.bare) Store.sound_empty Store.cascaded_empty events
  exact inOrder hseason.1 hseason.2

/-! ## A sample -/

/-- A contest of one player in one competition, whose catalog finds every answer wrong. -/
def sample : Contest where
  directory := {
    players := [{ id := "player", firstName := "First", lastName := "Last" }]
    competitions := [{ id := "cup", theme := "sea", address := some "http://catalog" }] }
  plan := default
  now := { wall := 63900000000000000, offset := some 0 }
  catalog := fun _ => .answered 200 "\x7b\"matches\": false\x7d"
  client := { timeout := .finite false Binary64.one, room := 900 }
  lockTimeout := 10000000000

/-- The first puzzle is opened in it. -/
def sampleOpening : Opening := ⟨"cup", "player", "knots", 0, "EASY"⟩

/-- A wrong answer to the first step. -/
def sampleSubmission : Submission := ⟨"cup", "player", "knots", 0, firstStep, "7", false⟩

end PuzzleContest.Contest
