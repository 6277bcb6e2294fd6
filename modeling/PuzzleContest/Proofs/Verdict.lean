import PuzzleContest.Proofs.Progress
import PuzzleContest.Proofs.Undisturbed

/-!
# The word of the catalog

In the submission service answers count by the verdicts of the catalog and by nothing else.  An answer
sends at most one request.  If the reply is a verdict, the answer is recorded with it; otherwise
nothing is changed.  So after any calls the tries tell which verdicts there have been, and a try is
finished when the last one of it was favourable.

Main results:

- `Catalog.Reply.verdict?`: the verdict in a reply.
- `Attempt.check_cases`: what is asked about an answer, and what comes of the reply.
- `Contest.answered_cases`: an undisturbed answer is recorded exactly with a verdict.
- `Contest.Heeds`: what a try tells of the verdicts on it.
- `Contest.vouched_season`: in every undisturbed season tries follow the verdicts.
-/

namespace PuzzleContest

/-! ## Verdicts -/

namespace Catalog

variable {send : Request → Reply} {request : Request} {reply : Reply} {b : Bool}

/-- The verdict that one with so much room finds in a reply: under status 200 an object with a boolean
under its name. -/
def Reply.verdict? (room : Nat) : Reply → Option Bool
  | .answered status body =>
    if status = 200 then
      match Json.read room body with
      | .ok (.object members) =>
        match Json.lookup "matches" members with
        | some (.bool b) => some b
        | _ => none
      | _ => none
    else none
  | _ => none

/-- A reply holds a verdict when its value does. -/
theorem Reply.verdict?_eq (room : Nat) (reply : Reply) :
    reply.verdict? room = match decode room reply with
      | .ok value => Catalog.verdict? value
      | .error _ => none := by
  cases reply with
  | unreachable reason => rfl
  | crashed crash => rfl
  | answered status body =>
    by_cases hstatus : status = 200
    · simp only [Reply.verdict?, decode, hstatus, if_true, ne_eq, not_true_eq_false, if_false]
      cases hread : Json.read room body with
      | ok value => cases value <;> rfl
      | error e => cases e <;> rfl
    · simp [Reply.verdict?, decode, hstatus]

/-- The result of a question about an answer is the verdict in the reply, if there is one. -/
theorem result_ask (send : Request → Reply) (room : Nat) (request : Request) :
    match (send request).verdict? room with
    | some b => (ask send room request verdict?).result = .ok b
    | none => ∃ t, (ask send room request verdict?).result = .error t := by
  rw [Reply.verdict?_eq]
  unfold ask
  cases hdecode : decode room (send request) with
  | error t => exact ⟨t, rfl⟩
  | ok value =>
    cases hverdict : verdict? value with
    | none => simp [hverdict]
    | some b => simp [hverdict]

end Catalog

/-- A contest in which one more request was sent. -/
def Contest.asking (c : Contest) (r : Catalog.Request) : Contest :=
  { c with requests := c.requests ++ [r] }

namespace Attempt

/-- The request for the check of an answer at a path of a catalog. -/
def request (a : Attempt) (x : Competition) (timeout : Binary64) (address path : String) :
    Catalog.Request :=
  ⟨Catalog.resource address path,
    Catalog.puzzleParams x.theme a.puzzle a.player ++ [("solution", a.answer)], timeout⟩

/-- What is asked about an answer, and what comes of the reply: nothing is asked, which is a failure,
or one request is sent whose reply decides. -/
theorem check_cases (a : Attempt) (x : Competition) (c : Contest) :
    (∃ e, a.check x c = (.error e, c)) ∨
      ∃ address path, x.address = some address ∧ Catalog.checkPath? a.step = some path ∧
        let r := a.request x c.client.timeout address path
        (a.check x c).2 = c.asking r ∧
          match (c.catalog r).verdict? c.client.room with
          | some b => (a.check x c).1 = .ok b
          | none => ∃ e, (a.check x c).1 = .error e := by
  cases haddress : x.address with
  | none =>
    refine .inl ⟨.refused .catalogNotFound, ?_⟩
    simp only [check, Action.bind_apply, Contest.addressOf, haddress]
    rfl
  | some address =>
    have hcheck : a.check x c = Contest.ask (fun c => Catalog.check c.catalog c.client address
        x.theme a.puzzle a.step a.player a.answer) c := by
      simp only [check, Action.bind_apply, Contest.addressOf, haddress]
      rfl
    rw [hcheck]
    unfold Contest.ask Catalog.check
    cases hpath : Catalog.checkPath? a.step with
    | none => exact .inl ⟨_, by simp [Except.mapError]; rfl⟩
    | some path =>
      by_cases hempty : address = ""
      · exact .inl ⟨_, by simp [hempty, Catalog.Exchange.refused, Except.mapError]; rfl⟩
      · refine .inr ⟨address, path, rfl, rfl, ?_⟩
        have hresult := Catalog.result_ask c.catalog c.client.room
          (a.request x c.client.timeout address path)
        simp only [hempty, if_false]
        refine ⟨rfl, ?_⟩
        generalize (c.catalog (a.request x c.client.timeout address path)).verdict? c.client.room =
          verdict at hresult
        cases verdict with
        | none =>
          rcases hresult with ⟨t, ht⟩
          exact ⟨.ofTrouble t, congrArg (Except.mapError Failure.ofTrouble) ht⟩
        | some b => exact congrArg (Except.mapError Failure.ofTrouble) hresult

end Attempt

namespace Contest

variable {c : Contest}

/-- The requests that an event sends. -/
def sent (c : Contest) (e : Event) : List Catalog.Request :=
  (c.after e).requests.drop c.requests.length

/-- The verdict among the replies to the requests of an event. -/
def verdict? (c : Contest) (e : Event) : Option Bool :=
  (c.sent e).findSome? fun r => (c.catalog r).verdict? c.client.room

/-- The answer to the try of a key and the verdict on it, if an event is such an answer and there is a
verdict. -/
def heard? (key : Try.Key) (x : Contest × Event) : Option (String × Bool) :=
  match x.2 with
  | .call _ (.answer a) => if a.key = key then (x.1.verdict? x.2).map (a.answer, ·) else none
  | _ => none

/-- The answers to the try of a key on which there were verdicts, in order. -/
def verdicts (c : Contest) (key : Try.Key) (events : List Event) : List (String × Bool) :=
  (c.course events).filterMap (heard? key)

/-- The requests made for an answer are one check of the step of its try, with the theme of the
competition, the puzzle and the player of the try, and the answer. -/
def Asks (c : Contest) (a : Attempt) (requests : List Catalog.Request) : Prop :=
  ∃ row ∈ c.store.tries, row.key = a.key ∧ ∃ x address path,
    c.directory.competition? row.key.competition = some x ∧ x.address = some address ∧
      Catalog.checkPath? row.key.step = some path ∧
      requests = [⟨Catalog.resource address path,
        Catalog.puzzleParams x.theme row.key.puzzle row.key.player ++ [("solution", a.answer)],
        c.client.timeout⟩]

/-! ## Answers -/

/-- What holds of every contest on the way of a season without disturbances. -/
structure Settled (c : Contest) : Prop where
  store : c.store.Sound
  cascaded : c.store.Cascaded
  /-- The players of all tries are known. -/
  players : ∀ t ∈ c.store.tries, ∃ p, c.directory.player? t.key.player = some p

theorem Settled.after (h : c.Settled) (e : Event) : (c.after e).Settled := by
  rcases sound_after h.store h.cascaded e with ⟨hs', hc'⟩
  refine ⟨hs', hc', ?_⟩
  rcases after_cases h.store h.cascaded e with ⟨x, rfl⟩ | ⟨what, hbecomes, -⟩
  · exact h.players
  · rw [hbecomes.directory_eq]
    cases hbecomes with
    | same hagrees =>
      rw [hagrees.store_eq]
      exact h.players
    | changed _ _ _ _ hplayer hchange =>
      intro t ht
      rcases hchange.mem_or_key ht with hold | hkey | hkey
      · exact h.players t hold
      · rw [hkey]
        exact ⟨_, hplayer⟩
      · rw [hkey]
        exact ⟨_, hplayer⟩

theorem Settled.course (h : c.Settled) {events : List Event} {x : Contest × Event}
    (hx : x ∈ c.course events) : x.1.Settled := by
  induction events generalizing c with
  | nil => exact absurd hx List.not_mem_nil
  | cons e rest ih =>
    rcases List.mem_cons.1 hx with rfl | hrest
    · exact h
    · exact ih (h.after e) hrest

/-- An undisturbed submission to an unfinished try is recorded, and sends nothing. -/
theorem submission_recorded (hc : c.Settled) (hu : c.Undisturbed) (me : Holder) {s : Submission}
    {row : Try Nat} (hstep : s.step = firstStep ∨ s.step = lastStep)
    (hrow : c.store.find? s.key = some row) (hopen : row.isFinished = false) :
    (s.run me c).2.requests = c.requests ∧ ∃ tidings,
      c.store.Change s.key (.answer c.now s.answer s.correct) (s.run me c).2.store tidings := by
  have hmem := Store.mem_of_find? hrow
  have hplayer : ∃ p, c.directory.player? s.player = some p := by
    have hrowPlayer := hc.players row hmem
    rw [Store.key_of_find? hrow] at hrowPlayer
    exact hrowPlayer
  have hready : s.Ready c := ⟨hu.schedule_eq, hstep, hplayer, row, hrow, hopen, hu.room row hmem⟩
  have hadmits := admits_of_entries hu.entries_eq s.key me
  refine ⟨(s.run_around hc.store hc.cascaded hadmits).2, ?_⟩
  rcases Submission.run_eq_ok me hc.store hc.cascaded hready hu.entries_eq with ⟨t, ht⟩
  rcases s.run_becomes me hc.store hc.cascaded with ⟨e, he, -⟩ | ⟨u, -, hbecomes⟩
  · rw [he] at ht
    exact absurd ht (by simp)
  · cases hbecomes with
    | changed _ _ _ _ _ hchange => exact ⟨_, hchange⟩

theorem sent_eq {e : Event} {l : List Catalog.Request}
    (h : (c.after e).requests = c.requests ++ l) : c.sent e = l := by
  unfold sent
  rw [h, List.drop_left]

theorem verdict?_of_sent_nil {e : Event} (h : c.sent e = []) : c.verdict? e = none := by
  unfold verdict?
  rw [h]
  rfl

theorem verdict?_of_sent {e : Event} {r : Catalog.Request} (h : c.sent e = [r]) :
    c.verdict? e = (c.catalog r).verdict? c.client.room := by
  unfold verdict?
  rw [h]
  simp

/-- A call that changes nothing leaves no verdict. -/
theorem verdict?_of_after_eq {e : Event} (h : c.after e = c) : c.verdict? e = none := by
  refine verdict?_of_sent_nil (sent_eq ?_)
  rw [h, List.append_nil]

/-- What comes of an answer that passes its gates where nothing disturbs it: without a verdict nothing
is changed, and with one it is recorded. -/
theorem checked_cases (hc : c.Settled) (hu : c.Undisturbed) (me : Holder) {a : Attempt}
    {x : Competition} {row : Try Nat} (hgate : a.gate c = (.ok x, c)) (hpasses : a.Passes c x row) :
    let e : Event := .call me (.answer a)
    (c.verdict? e = none ∧ (c.after e).store = c.store) ∨
      ∃ b tidings, c.verdict? e = some b ∧ c.Asks a (c.sent e) ∧
        c.store.Change a.key (.answer c.now a.answer b) (c.after e).store tidings := by
  intro e
  have hafter : c.after e = (a.play me c).2 := rfl
  have hplay : a.play me c = (do
      let correct ← a.check x
      let t ← (a.judged correct).run me
      return (⟨correct, t⟩ : Verdict) : Action Verdict) c := by
    unfold Attempt.play
    rw [Action.bind_apply, hgate]
  rw [Action.bind_apply] at hplay
  rcases a.check_cases x c with ⟨e', hcheck⟩ | ⟨address, path, haddress, hpath, hsends, hreply⟩
  · rw [hcheck] at hplay
    have hquiet : c.after e = c := by rw [hafter, hplay]
    exact .inl ⟨verdict?_of_after_eq hquiet, congrArg Contest.store hquiet⟩
  · -- One request is sent, and its reply decides.
    generalize hr : a.request x c.client.timeout address path = r at hsends hreply
    have hkey := Store.key_of_find? hpasses.found
    have hasks : c.Asks a [r] := by
      refine ⟨row, Store.mem_of_find? hpasses.found, hkey, x, address, path, ?_, haddress, ?_, ?_⟩
      · rw [hkey]
        exact hpasses.competition
      · rw [hkey]
        exact hpath
      · rw [← hr, hkey]
        rfl
    cases hverdict : (c.catalog r).verdict? c.client.room with
    | none =>
      rw [hverdict] at hreply
      rcases hreply with ⟨e', he'⟩
      have hcheck : a.check x c = (.error e', c.asking r) := Prod.ext he' hsends
      rw [hcheck] at hplay
      have hend : c.after e = c.asking r := by rw [hafter, hplay]
      have hsent : c.sent e = [r] := sent_eq (by rw [hend, asking])
      refine .inl ⟨(verdict?_of_sent hsent).trans hverdict, ?_⟩
      rw [hend]
      rfl
    | some b =>
      rw [hverdict] at hreply
      have hcheck : a.check x c = (.ok b, c.asking r) := Prod.ext hreply hsends
      rw [hcheck] at hplay
      have hend : c.after e = ((a.judged b).run me (c.asking r)).2 := by
        rw [hafter, hplay]
        dsimp only
        rw [Action.bind_apply]
        cases (a.judged b).run me (c.asking r) with
        | mk result c' => cases result <;> rfl
      have hc' : (c.asking r).Settled := ⟨hc.store, hc.cascaded, hc.players⟩
      have hu' : (c.asking r).Undisturbed := ⟨hu.schedule_eq, hu.entries_eq, hu.room⟩
      have hfound : (c.asking r).store.find? (a.judged b).key = some row := hpasses.found
      rcases submission_recorded hc' hu' me hpasses.step hfound hpasses.unfinished with
        ⟨hrequests, tidings, hchange⟩
      have hsent : c.sent e = [r] := sent_eq (by rw [hend, hrequests, asking])
      refine .inr ⟨b, tidings, (verdict?_of_sent hsent).trans hverdict, hsent ▸ hasks, ?_⟩
      rw [hend]
      exact hchange

/-- What comes of an answer that nothing disturbs: without a verdict nothing is changed, and with one
it is recorded. -/
theorem answered_cases (hc : c.Settled) (hu : c.Undisturbed) (me : Holder) (a : Attempt) :
    let e : Event := .call me (.answer a)
    (c.verdict? e = none ∧ (c.after e).store = c.store) ∨
      ∃ b tidings, c.verdict? e = some b ∧ c.Asks a (c.sent e) ∧
        c.store.Change a.key (.answer c.now a.answer b) (c.after e).store tidings := by
  have hstill := a.isStill_gate c hu.schedule_eq
  cases hgate : a.gate c with
  | mk result c₁ =>
    rw [hgate] at hstill
    change c₁ = c at hstill
    subst hstill
    cases result with
    | ok x =>
      rcases Attempt.gate_eq_ok hgate with ⟨row, hpasses⟩
      exact checked_cases hc hu me hgate hpasses
    | error e =>
      have hquiet : c₁.after (.call me (.answer a)) = c₁ := by
        change (a.play me c₁).2 = c₁
        unfold Attempt.play
        rw [Action.bind_apply, hgate]
      exact .inl ⟨verdict?_of_after_eq hquiet, congrArg Contest.store hquiet⟩

/-! ## What tries tell of verdicts -/

/-- A try heeds the verdicts on it: it counts them, remembers the last answer, and is finished when the
last one was favourable. -/
structure Heeds (t : Try Nat) (heard : List (String × Bool)) : Prop where
  attempts_eq : t.attempts = heard.length
  lastAnswer_eq : t.lastAnswer = heard.getLast?.map (·.1)
  isFinished_eq : t.isFinished = (heard.getLast?.map (·.2)).getD false

/-- The try of a key, if there is one, heeds the verdicts on it, of which there are none before. -/
def Follows (s : Store) (key : Try.Key) (heard : List (String × Bool)) : Prop :=
  match s.find? key with
  | some t => Heeds t heard
  | none => heard = []

/-- The answer and the verdict of a deal. -/
def told? : Deal → Option (String × Bool)
  | .answer _ answer correct => some (answer, correct)
  | .opening _ _ => none

/-- A change adds one verdict on the key that it answers. -/
theorem Follows.change {s s' : Store} {key k : Try.Key} {deal : Deal} {tidings : List Store.Tiding}
    {heard : List (String × Bool)} (hs : s.Sound) (h : s.Change key deal s' tidings)
    (hfollows : Follows s k heard) :
    Follows s' k (heard ++ (if k = key then told? deal else none).toList) := by
  unfold Follows at hfollows ⊢
  have hquiet : (k = key → deal.isAnswer = false) →
      (if k = key then told? deal else none).toList = [] := by
    intro hdeal
    by_cases hk : k = key
    · have hopening := hdeal hk
      cases deal with
      | opening level start => simp [told?]
      | answer now answer correct => exact absurd hopening (by simp [Deal.isAnswer])
    · simp [hk]
  cases h.fate hs k with
  | untouched hfind htold hdeal =>
    rw [hquiet hdeal, List.append_nil, hfind]
    exact hfollows
  | made hnone hfresh hfind htold hdeal =>
    rw [hnone] at hfollows
    change heard = [] at hfollows
    rw [hquiet hdeal, List.append_nil, hfind, hfollows, hfresh]
    exact ⟨rfl, rfl, rfl⟩
  | answered hkey hdeal hrow hopen hanswer hfind htold =>
    have hanswered := Try.answered_of_eq_some hanswer
    rw [hrow] at hfollows
    rw [hfind, if_pos hkey, hdeal]
    refine ⟨?_, ?_, ?_⟩
    · rw [hanswered.attempts_eq, hfollows.attempts_eq]
      simp [told?]
    · rw [hanswered.lastAnswer_eq]
      simp [told?]
    · rw [hanswered.isFinished_eq hopen]
      simp [told?]

/-- What a gated event makes of the store where nothing disturbs it, and which verdicts it brings. -/
theorem heard?_cases (hc : c.Settled) (hu : c.Undisturbed) {e : Event} (he : e.IsGated) :
    ((c.after e).store = c.store ∧ ∀ k, heard? k (c, e) = none) ∨ ∃ key deal tidings,
      c.store.Change key deal (c.after e).store tidings ∧
        ∀ k, heard? k (c, e) = if k = key then told? deal else none := by
  have hopening : ∀ {o : Opening} {c' : Contest}, (∀ k, heard? k (c, e) = none) →
      (c.Becomes none c' ∨ c.Becomes (some (o.key, .opening o.level c.now)) c') →
      (c'.store = c.store ∧ ∀ k, heard? k (c, e) = none) ∨ ∃ key deal tidings,
        c.store.Change key deal c'.store tidings ∧
          ∀ k, heard? k (c, e) = if k = key then told? deal else none := by
    rintro o c' hnone (h | h)
    · cases h with
      | same hagrees => exact .inl ⟨hagrees.store_eq, hnone⟩
    · cases h with
      | changed _ _ _ _ _ hchange =>
        exact .inr ⟨_, _, _, hchange, fun k => by rw [hnone k]; simp [told?]⟩
  cases e with
  | around x => exact .inl ⟨rfl, fun k => rfl⟩
  | unstorable me o =>
    exact hopening (fun k => rfl)
      (Opening.becomes_of_middle (fun c => o.runUnstorable_becomes me) hc.store hc.cascaded)
  | call me call =>
    cases call with
    | trigger o => exact absurd he id
    | submit s => exact absurd he id
    | visit o =>
      exact hopening (fun k => rfl)
        (Opening.becomes_of_middle (fun c => o.run_becomes me) hc.store hc.cascaded)
    | ask q => exact .inl ⟨(q.isRead_run.agrees c).store_eq, fun k => rfl⟩
    | answer a =>
      rcases answered_cases hc hu me a with ⟨hnone, hsame⟩ | ⟨b, tidings, hsome, -, hchange⟩
      · exact .inl ⟨hsame, fun k => by simp [heard?, hnone]⟩
      · refine .inr ⟨_, _, _, hchange, fun k => ?_⟩
        simp [heard?, hsome, told?, eq_comm]

/-- Each gated event that nothing disturbs leaves a store that follows the verdicts. -/
theorem Follows.after (hc : c.Settled) (hu : c.Undisturbed) {e : Event} (he : e.IsGated)
    {key : Try.Key} {heard : List (String × Bool)} (h : Follows c.store key heard) :
    Follows (c.after e).store key (heard ++ (heard? key (c, e)).toList) := by
  rcases heard?_cases hc hu he with ⟨hstore, hnone⟩ | ⟨answered, deal, tidings, hchange, hsome⟩
  · rw [hstore, hnone, Option.toList_none, List.append_nil]
    exact h
  · rw [hsome]
    exact h.change hc.store hchange

theorem Follows.season {events : List Event} (hc : c.Settled)
    (hu : ∀ x ∈ c.course events, x.1.Undisturbed) (he : ∀ e ∈ events, e.IsGated) {key : Try.Key}
    {heard : List (String × Bool)} (h : Follows c.store key heard) :
    Follows (c.season events).store key (heard ++ c.verdicts key events) := by
  induction events generalizing c heard with
  | nil =>
    rw [verdicts, course, List.filterMap_nil, List.append_nil]
    exact h
  | cons e rest ih =>
    have hafter := h.after hc (hu _ List.mem_cons_self) (he e List.mem_cons_self)
    have hrest := ih (hc.after e) (fun x hx => hu x (List.mem_cons_of_mem _ hx))
      (fun e' he' => he e' (List.mem_cons_of_mem e he')) hafter
    have hverdicts : c.verdicts key (e :: rest) =
        (heard? key (c, e)).toList ++ (c.after e).verdicts key rest := by
      cases hheard : heard? key (c, e) <;> simp [verdicts, course, hheard]
    rw [hverdicts, ← List.append_assoc]
    exact hrest

/-! ## Seasons without disturbances -/

/-- What is promised of the tries and the verdicts of a season. -/
structure Vouched (c : Contest) (events : List Event) : Prop where
  /-- Each try has as many attempts as there were verdicts on it. -/
  attempts_eq : ∀ t ∈ (c.season events).store.tries, t.attempts = (c.verdicts t.key events).length
  /-- It is finished exactly when the last one was favourable. -/
  finished_iff : ∀ t ∈ (c.season events).store.tries,
    t.finish ≠ none ↔ ∃ answer, (c.verdicts t.key events).getLast? = some (answer, true)
  /-- Its last answer is then the one that this verdict was about. -/
  last_answer : ∀ t ∈ (c.season events).store.tries, ∀ answer,
    (c.verdicts t.key events).getLast? = some (answer, true) → t.lastAnswer = some answer
  /-- An answer on which there was a verdict sent one request, the check of its try. -/
  asked : ∀ x ∈ c.course events, ∀ me a, x.2 = .call me (.answer a) →
    x.1.verdict? x.2 ≠ none → x.1.Asks a (x.1.sent x.2)
  /-- Any other answer changed no try. -/
  unchanged : ∀ x ∈ c.course events, ∀ me a, x.2 = .call me (.answer a) →
    x.1.verdict? x.2 = none → (x.1.after x.2).store = x.1.store

/-- In every season of gated calls that starts without tries and that nothing disturbs, the tries
follow the verdicts of the catalog. -/
theorem vouched_season (c : Contest) (events : List Event) (hgated : ∀ e ∈ events, e.IsGated)
    (hundisturbed : ∀ x ∈ c.bare.course events, x.1.Undisturbed) : c.bare.Vouched events := by
  have hbare : c.bare.Settled :=
    ⟨Store.sound_empty, Store.cascaded_empty, fun t ht => absurd ht List.not_mem_nil⟩
  have hsound := (sound_season hbare.store hbare.cascaded events).1
  have hheeds : ∀ t ∈ (c.bare.season events).store.tries,
      Heeds t (c.bare.verdicts t.key events) := by
    intro t ht
    have hstart : Follows c.bare.store t.key [] := rfl
    have hfollows := hstart.season hbare hundisturbed hgated
    have hfind := (Store.find?_eq_some_iff hsound).2 ⟨ht, rfl⟩
    unfold Follows at hfollows
    rw [hfind] at hfollows
    exact hfollows
  refine ⟨fun t ht => (hheeds t ht).attempts_eq, ?_, ?_, ?_, ?_⟩
  · intro t ht
    have hfinished := (hheeds t ht).isFinished_eq
    rw [← Option.isSome_iff_ne_none]
    change t.isFinished = true ↔ _
    rw [hfinished]
    cases (c.bare.verdicts t.key events).getLast? with
    | none => simp
    | some last => simp [Prod.ext_iff]
  · intro t ht answer hlast
    rw [(hheeds t ht).lastAnswer_eq, hlast]
    rfl
  · intro x hx me a he hverdict
    have hcases := answered_cases (hbare.course hx) (hundisturbed x hx) me a
    rw [← he] at hcases
    rcases hcases with ⟨hnone, -⟩ | ⟨b, tidings, -, hasks, -⟩
    · exact absurd hnone hverdict
    · exact hasks
  · intro x hx me a he hverdict
    have hcases := answered_cases (hbare.course hx) (hundisturbed x hx) me a
    rw [← he] at hcases
    rcases hcases with ⟨-, hsame⟩ | ⟨b, tidings, hsome, -, -⟩
    · exact hsame
    · rw [hverdict] at hsome
      exact absurd hsome (by simp)

/-- A catalog that finds one answer right and one wrong, and fails at all others. -/
def sampleReply (r : Catalog.Request) : Catalog.Reply :=
  match r.params.lookup "solution" with
  | some "42" => .answered 200 "\x7b\"matches\": true\x7d"
  | some "7" => .answered 200 "\x7b\"matches\": false\x7d"
  | _ => .answered 500 ""

/-- The catalog finds one answer wrong, fails at the next one, and finds the last one right. -/
theorem vouched_season_sample :
    let c : Contest := { sample with catalog := sampleReply }
    let events : List Event := [.call (.caller 0) (.visit sampleOpening),
      .call (.caller 0) (.answer ⟨"cup", "player", "knots", 0, firstStep, "7"⟩),
      .call (.caller 0) (.answer ⟨"cup", "player", "knots", 0, firstStep, "8"⟩),
      .call (.caller 0) (.answer ⟨"cup", "player", "knots", 0, firstStep, "42"⟩)]
    (∀ e ∈ events, e.IsGated) ∧ (∀ x ∈ c.bare.course events, x.1.Undisturbed) ∧
      c.bare.Vouched events ∧
      c.bare.verdicts sampleOpening.key events = [("7", false), ("42", true)] ∧
      (c.bare.season events).store.tries.map (·.attempts) = [2, 0] := by
  intro c events
  have hgated : ∀ e ∈ events, e.IsGated := by simp [events, Event.IsGated]
  have hundisturbed : ∀ x ∈ c.bare.course events, x.1.Undisturbed := by decide +kernel
  exact ⟨hgated, hundisturbed, vouched_season c events hgated hundisturbed, by decide +kernel,
    by decide +kernel⟩

end Contest

end PuzzleContest
