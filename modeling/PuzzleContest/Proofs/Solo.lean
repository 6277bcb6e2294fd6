import PuzzleContest.Contest.Call
import PuzzleContest.Proofs.Deed

/-!
# Calls while nobody else moves

A call that runs from its beginning to its end either leaves the tries and the announcements as they
are, or makes one change of the store and announces it.

Main results:

- `Contest.Becomes`: what a whole call makes of a contest.
- `Deed.Since.advance`: what a deed has done so far goes on with each of its steps.
- `Opening.run_becomes`, `Submission.run_becomes`, `Call.run_becomes`: what whole calls do.
-/

namespace PuzzleContest

namespace Contest

/-- Two contests agree on players, cooldowns, clock, tries and announcements. -/
structure Agrees (c c' : Contest) : Prop where
  directory_eq : c'.directory = c.directory
  plan_eq : c'.plan = c.plan
  now_eq : c'.now = c.now
  store_eq : c'.store = c.store
  outbox_eq : c'.outbox = c.outbox

theorem Agrees.trans {c c' c'' : Contest} (h : c.Agrees c') (h' : c'.Agrees c'') : c.Agrees c'' :=
  ⟨h'.directory_eq.trans h.directory_eq, h'.plan_eq.trans h.plan_eq, h'.now_eq.trans h.now_eq,
    h'.store_eq.trans h.store_eq, h'.outbox_eq.trans h.outbox_eq⟩

/-- What a whole call makes of a contest: nothing new, or a change of a key with its announcements. -/
inductive Becomes (c : Contest) : Option (Try.Key × Deal) → Contest → Prop where
  | same {c' : Contest} (hagrees : c.Agrees c') : Becomes c none c'
  | changed {c' : Contest} {key : Try.Key} {deal : Deal} {tidings : List Store.Tiding} {p : Player}
      (hdirectory : c'.directory = c.directory) (hplan : c'.plan = c.plan)
      (hnow : c'.now = c.now) (hmoment : deal.moment = c.now)
      (hplayer : c.directory.player? key.player = some p)
      (hchange : c.store.Change key deal c'.store tidings)
      (houtbox : c'.outbox = c.outbox ++ tidings.map (·.announcement p)) :
      Becomes c (some (key, deal)) c'

variable {c c' c'' : Contest} {what : Option (Try.Key × Deal)}

theorem Becomes.directory_eq (h : c.Becomes what c') : c'.directory = c.directory := by
  cases h with
  | same hagrees => exact hagrees.directory_eq
  | changed hdirectory hplan hnow hmoment hplayer hchange houtbox => exact hdirectory

theorem Becomes.plan_eq (h : c.Becomes what c') : c'.plan = c.plan := by
  cases h with
  | same hagrees => exact hagrees.plan_eq
  | changed hdirectory hplan hnow hmoment hplayer hchange houtbox => exact hplan

theorem Becomes.now_eq (h : c.Becomes what c') : c'.now = c.now := by
  cases h with
  | same hagrees => exact hagrees.now_eq
  | changed hdirectory hplan hnow hmoment hplayer hchange houtbox => exact hnow

theorem Becomes.sound (h : c.Becomes what c') (hs : c.store.Sound) : c'.store.Sound := by
  cases h with
  | same hagrees => exact hagrees.store_eq ▸ hs
  | changed hdirectory hplan hnow hmoment hplayer hchange houtbox => exact hchange.sound hs

theorem Becomes.cascaded (h : c.Becomes what c') (hs : c.store.Sound) (hc : c.store.Cascaded) :
    c'.store.Cascaded := by
  cases h with
  | same hagrees => exact hagrees.store_eq ▸ hc
  | changed hdirectory hplan hnow hmoment hplayer hchange houtbox => exact hc.change hs hchange

theorem Agrees.becomes (h : c.Agrees c') (h' : c'.Becomes what c'') : c.Becomes what c'' := by
  cases h' with
  | same hagrees =>
    exact .same (h.trans hagrees)
  | changed hdirectory hplan hnow hmoment hplayer hchange houtbox =>
    rw [h.store_eq] at hchange
    rw [h.directory_eq] at hplayer
    exact .changed (hdirectory.trans h.directory_eq) (hplan.trans h.plan_eq) (hnow.trans h.now_eq)
      (hmoment.trans h.now_eq) hplayer hchange (h.outbox_eq ▸ houtbox)

theorem Becomes.agrees (h : c.Becomes what c') (h' : c'.Agrees c'') : c.Becomes what c'' := by
  cases h with
  | same hagrees => exact hagrees.becomes (.same h')
  | changed hdirectory hplan hnow hmoment hplayer hchange houtbox =>
    rw [← h'.store_eq] at hchange
    exact .changed (h'.directory_eq.trans hdirectory) (h'.plan_eq.trans hplan)
      (h'.now_eq.trans hnow) hmoment hplayer hchange (h'.outbox_eq.trans houtbox)

end Contest

theorem Action.IsRead.agrees {α : Type} {x : Action α} (hx : x.IsRead) (c : Contest) :
    c.Agrees (x c).2 := by
  rcases hx c with ⟨schedule, hschedule⟩
  rw [hschedule]
  exact ⟨rfl, rfl, rfl, rfl, rfl⟩

theorem Action.IsRead.agrees_of_eq {α : Type} {x : Action α} {result : Except Failure α}
    {c c' : Contest} (hx : x.IsRead) (h : x c = (result, c')) : c.Agrees c' := by
  have hagrees := hx.agrees c
  rw [h] at hagrees
  exact hagrees

theorem Store.Change.tidings_ne {s s' : Store} {key : Try.Key} {deal : Deal}
    {tidings : List Store.Tiding} (h : s.Change key deal s' tidings) : tidings ≠ [] := by
  cases h <;> simp

/-! ## The course of a deed -/

namespace Deed

variable {me : Holder} {d d' : Deed} {c₀ c c' : Contest}

/-- What a deed has done since the contest was in some state: nothing yet, its change without the
announcements, or all of it. -/
inductive Course (c₀ : Contest) (d : Deed) (c : Contest) : Prop where
  | before (hstore : c.store = c₀.store) (houtbox : c.outbox = c₀.outbox) (htidings : d.tidings = [])
      (hrecorded : d.isRecorded = false)
  | between {deal : Deal} (hfits : Fits d.call deal) (hmoment : deal.moment = c₀.now)
      (hchange : c₀.store.Change d.key deal c.store d.tidings) (houtbox : c.outbox = c₀.outbox)
      (hrecorded : d.isRecorded = deal.isAnswer)
  | after {deal : Deal} {tidings : List Store.Tiding} {p : Player} (hover : d.isOver = true)
      (hfits : Fits d.call deal) (hmoment : deal.moment = c₀.now)
      (hplayer : c₀.directory.player? d.key.player = some p)
      (hchange : c₀.store.Change d.key deal c.store tidings)
      (houtbox : c.outbox = c₀.outbox ++ tidings.map (·.announcement p))
      (hrecorded : d.isRecorded = deal.isAnswer)

/-- A deed under way, and all that is known since it began. -/
structure Since (c₀ : Contest) (d : Deed) (c : Contest) : Prop where
  directory_eq : c.directory = c₀.directory
  plan_eq : c.plan = c₀.plan
  now_eq : c.now = c₀.now
  store : c.store.Sound
  cascaded : c.store.Cascaded
  informed : d.Informed c.directory c.store
  moment : ∀ m, d.moment? = some m → m = c₀.now
  course : Course c₀ d c

theorem Stride.directory_eq (h : Stride me d c d' c') : c'.directory = c.directory := by
  cases h <;> rfl

theorem Stride.plan_eq (h : Stride me d c d' c') : c'.plan = c.plan := by
  cases h <;> rfl

theorem Stride.now_eq (h : Stride me d c d' c') : c'.now = c.now := by
  cases h <;> rfl

theorem Stride.sound (h : Stride me d c d' c') (hs : c.store.Sound) : c'.store.Sound := by
  cases h with
  | read | entered | admitted | withdrawn | left => exact hs
  | committed _ _ _ _ _ _ _ hchange _ => exact hchange.sound hs

theorem Stride.cascaded (h : Stride me d c d' c') (hs : c.store.Sound) (hc : c.store.Cascaded) :
    c'.store.Cascaded := by
  cases h with
  | read | entered | admitted | withdrawn | left => exact hc
  | committed _ _ _ _ _ _ _ hchange _ => exact hc.change hs hchange

/-- A step that neither commits nor announces leaves a deed where it was in its course. -/
theorem Course.keep (h : Course c₀ d c) (hleft : d.isOver = false) (hkeeps : d.Keeps d')
    (hstore : c'.store = c.store) (houtbox : c'.outbox = c.outbox) : Course c₀ d' c' := by
  have hkey : d'.key = d.key := congrArg keyOf hkeeps.call_eq
  cases h with
  | before hstore₀ houtbox₀ htidings hrecorded =>
    exact .before (hstore.trans hstore₀) (houtbox.trans houtbox₀)
      (hkeeps.tidings_eq.trans htidings) (hkeeps.isRecorded_eq.trans hrecorded)
  | between hfits hmoment hchange houtbox₀ hrecorded =>
    rw [← hstore, ← hkeeps.tidings_eq, ← hkey] at hchange
    rw [← hkeeps.call_eq] at hfits
    exact .between hfits hmoment hchange (houtbox.trans houtbox₀)
      (hkeeps.isRecorded_eq.trans hrecorded)
  | after hover =>
    rw [hleft] at hover
    exact absurd hover (by simp)

/-- Each step takes a deed along its course: it changes the store once and announces that once. -/
theorem Course.stride (h : Course c₀ d c) (hleft : d.isOver = false)
    (hdirectory : c.directory = c₀.directory) (hmoment : ∀ m, d.moment? = some m → m = c₀.now)
    (hstride : Stride me d c d' c') : Course c₀ d' c' := by
  cases hstride with
  | read hkeeps hstage => exact h.keep hleft hkeeps rfl rfl
  | entered hkeeps hstage hnext => exact h.keep hleft hkeeps rfl rfl
  | admitted hkeeps hstage hholds hnext => exact h.keep hleft hkeeps rfl rfl
  | withdrawn hkeeps hstage hholds hnext => exact h.keep hleft hkeeps rfl rfl
  | committed hcall hstage hnext htidings hrecorded hfits hdeal hchange hanswer =>
    cases h with
    | before hstore houtbox _ _ =>
      have hkey : d'.key = d.key := congrArg keyOf hcall
      rw [← hcall] at hfits
      rw [hstore, ← hkey] at hchange
      exact .between hfits (hmoment _ hdeal) hchange houtbox hanswer
    | between _ _ hchange₀ _ _ =>
      -- Tidings that are owed tell that the one commit of the deed is behind it.
      exact absurd htidings hchange₀.tidings_ne
    | after hover =>
      rw [hleft] at hover
      exact absurd hover (by simp)
  | @left p hcall hstage hnext htidings hover hrecorded hplayer =>
    have hkey : d'.key = d.key := congrArg keyOf hcall
    cases h with
    | before hstore houtbox hquiet hnot =>
      refine .before hstore ?_ htidings (hrecorded.trans hnot)
      rw [hquiet]
      exact (List.append_nil _).trans houtbox
    | between hfits hdeal hchange houtbox hanswer =>
      have hend := hover hchange.tidings_ne
      rw [← hcall] at hfits
      rw [← hkey] at hchange
      rw [hdirectory, ← hkey] at hplayer
      refine .after hend hfits hdeal hplayer hchange ?_ (hrecorded.trans hanswer)
      rw [houtbox]
    | after hover =>
      rw [hleft] at hover
      exact absurd hover (by simp)

/-- What is known of a deed since it began is known after its next step. -/
theorem Since.advance (h : Since c₀ d c) (hleft : d.isOver = false) :
    Since c₀ (d.advance me c).1 (d.advance me c).2 := by
  rcases stride_advance me h.store h.cascaded h.informed with ⟨hstride, hinformed⟩
  refine ⟨hstride.directory_eq.trans h.directory_eq, hstride.plan_eq.trans h.plan_eq,
    hstride.now_eq.trans h.now_eq, hstride.sound h.store,
    hstride.cascaded h.store h.cascaded, hinformed, ?_,
    h.course.stride hleft h.directory_eq h.moment hstride⟩
  intro m hm
  rcases moment?_advance hm with hnow | hmoment
  · exact hnow.trans h.now_eq
  · exact h.moment m hmoment

theorem tidings_of_isOver (hover : d.isOver = true) : d.tidings = [] := by
  cases d with
  | opening o phase =>
    cases phase with
    | closing | leaving => exact absurd hover (by simp [isOver, Opening.Phase.result?])
    | _ => rfl
  | submission s phase =>
    cases phase with
    | closing | leaving => exact absurd hover (by simp [isOver, Submission.Phase.result?])
    | _ => rfl

/-- A deed at its end has made nothing of the contest, or one change with its announcements. -/
theorem Since.becomes (h : Since c₀ d c) (hover : d.isOver = true) :
    d.isRecorded = false ∧ c₀.Becomes none c ∨
      ∃ deal, Fits d.call deal ∧ deal.moment = c₀.now ∧ d.isRecorded = deal.isAnswer ∧
        c₀.Becomes (some (d.key, deal)) c := by
  cases h.course with
  | before hstore houtbox htidings hrecorded =>
    exact .inl ⟨hrecorded, .same ⟨h.directory_eq, h.plan_eq, h.now_eq, hstore, houtbox⟩⟩
  | between hfits hmoment hchange houtbox hrecorded =>
    exact absurd (tidings_of_isOver hover) hchange.tidings_ne
  | after _ hfits hmoment hplayer hchange houtbox hrecorded =>
    exact .inr ⟨_, hfits, hmoment, hrecorded,
      .changed h.directory_eq h.plan_eq h.now_eq hmoment hplayer hchange houtbox⟩

end Deed

/-! ## Whole runs -/

namespace Opening

variable {me : Holder} {o : Opening} {c₀ c : Contest}

theorem Phase.eq_done {phase : Phase} {result : Except Failure (Try Nat)}
    (h : phase.result? = some result) : phase = .done result := by
  cases phase with
  | done r => exact congrArg _ (Option.some.inj h)
  | _ => exact absurd h (by simp [Phase.result?])

/-- A run takes an opening to its end. -/
theorem since_runFrom {phase : Phase} (h : Deed.Since c₀ (.opening o phase) c) :
    Deed.Since c₀ (.opening o (.done (runFrom me o phase c).1)) (runFrom me o phase c).2 := by
  fun_induction runFrom me o phase c with
  | case1 phase c result hresult =>
    rw [Phase.eq_done hresult] at h
    exact h
  | case2 phase c hresult next ih =>
    have hleft : (Deed.opening o phase).isOver = false := by simp [Deed.isOver, hresult]
    exact ih (h.advance hleft)

/-- A whole opening makes the try of its key or leaves everything as it is. -/
theorem run_becomes (me : Holder) (o : Opening) (hs : c.store.Sound) (hc : c.store.Cascaded) :
    c.Becomes none (o.run me c).2 ∨
      c.Becomes (some (o.key, .opening o.level c.now)) (o.run me c).2 := by
  have hstart : Deed.Since c (.opening o .arriving) c :=
    ⟨rfl, rfl, rfl, hs, hc, trivial, fun m hm => absurd hm (by simp [Deed.moment?, Phase.moment?]),
      .before rfl rfl rfl rfl⟩
  rcases (since_runFrom hstart).becomes rfl with ⟨-, hsame⟩ | ⟨deal, hfits, hmoment, -, hbecomes⟩
  · exact .inl hsame
  · refine .inr ?_
    cases deal with
    | opening level start =>
      change level = o.level at hfits
      change start = c.now at hmoment
      rw [hfits, hmoment] at hbecomes
      exact hbecomes
    | answer now answer correct => exact absurd hfits id

end Opening

namespace Submission

variable {me : Holder} {s : Submission} {c₀ c : Contest}

theorem Phase.eq_done {phase : Phase} {result : Except Failure (Try Nat)}
    (h : phase.result? = some result) : phase = .done result := by
  cases phase with
  | done r => exact congrArg _ (Option.some.inj h)
  | _ => exact absurd h (by simp [Phase.result?])

/-- A run takes a submission to its end. -/
theorem since_runFrom {phase : Phase} (h : Deed.Since c₀ (.submission s phase) c) :
    Deed.Since c₀ (.submission s (.done (runFrom me s phase c).1)) (runFrom me s phase c).2 := by
  fun_induction runFrom me s phase c with
  | case1 phase c result hresult =>
    rw [Phase.eq_done hresult] at h
    exact h
  | case2 phase c hresult next ih =>
    have hleft : (Deed.submission s phase).isOver = false := by simp [Deed.isOver, hresult]
    exact ih (h.advance hleft)

/-- What a whole submission asks for. -/
def deal (s : Submission) (now : Moment) : Deal := .answer now s.answer s.correct

/-- A whole submission that fails leaves everything as it is, and one that returns answers the try
of its key. -/
theorem run_becomes (me : Holder) (s : Submission) (hs : c.store.Sound) (hc : c.store.Cascaded) :
    (∃ e, (s.run me c).1 = .error e ∧ c.Becomes none (s.run me c).2) ∨
      ∃ t, (s.run me c).1 = .ok t ∧ c.Becomes (some (s.key, s.deal c.now)) (s.run me c).2 := by
  have hstart : Deed.Since c (.submission s .arriving) c :=
    ⟨rfl, rfl, rfl, hs, hc, trivial, fun m hm => absurd hm (by simp [Deed.moment?, Phase.moment?]),
      .before rfl rfl rfl rfl⟩
  have hend : Deed.Since c (.submission s (.done (s.run me c).1)) (s.run me c).2 :=
    since_runFrom hstart
  rcases hend.becomes rfl with ⟨hnot, hsame⟩ | ⟨deal, hfits, hmoment, hrecorded, hbecomes⟩
  · cases hresult : (s.run me c).1 with
    | error e => exact .inl ⟨e, rfl, hsame⟩
    | ok t =>
      rw [hresult] at hnot
      exact absurd hnot (by simp [Deed.isRecorded, Phase.isRecorded])
  · cases deal with
    | opening level start => exact absurd hfits id
    | answer now answer correct =>
      change answer = s.answer ∧ correct = s.correct at hfits
      change now = c.now at hmoment
      rw [hfits.1, hfits.2, hmoment] at hbecomes
      cases hresult : (s.run me c).1 with
      | ok t => exact .inr ⟨t, rfl, hbecomes⟩
      | error e =>
        rw [hresult] at hrecorded
        exact absurd hrecorded (by simp [Deed.isRecorded, Phase.isRecorded, Deal.isAnswer])

end Submission

/-! ## Gates and questions -/

namespace Action

variable {α β : Type} {x : Action α}

theorem IsRead.map (hx : x.IsRead) (f : α → β) : (x.map f).IsRead := hx

theorem agrees_bind {f : α → Action β} (hx : ∀ c : Contest, c.Agrees (x c).2)
    (hf : ∀ (a : α) (c : Contest), c.Agrees (f a c).2) (c : Contest) : c.Agrees ((x >>= f) c).2 := by
  have hc := hx c
  rw [bind_apply]
  cases hresult : x c with
  | mk result c' =>
    rw [hresult] at hc
    cases result with
    | error e => exact hc
    | ok a =>
      exact hc.trans (hf a c')

end Action

namespace Contest

open PuzzleContest.Action

theorem isRead_findCompetition (id : String) : IsRead (findCompetition id) :=
  isRead_session.bind fun _ => isRead_readCompetition id

theorem isRead_seekView (index : Int) : IsRead (seekView index) := .ite (.pure ()) isRead_session

theorem isRead_readView (competition player : String) (index : Int) :
    IsRead (readView competition player index) :=
  .ite (.pure true) ((isRead_checkInteger _).bind fun _ => .view _)

theorem isRead_ensureVisible (competition player : String) (index : Int) :
    IsRead (ensureVisible competition player index) :=
  (isRead_seekView index).bind fun _ =>
    (isRead_readView competition player index).bind fun _ => .ite (.pure ()) (.refuse _)

theorem isRead_seekTry (key : Try.Key) : IsRead (seekTry key) :=
  (isRead_checkStep _).bind fun _ => isRead_seek _

theorem isRead_addressOf (x : Competition) : IsRead (addressOf x) := by
  unfold addressOf
  cases x.address with
  | none => exact .refuse _
  | some address => exact .pure address

end Contest

theorem Query.isRead_prepare (q : Query) : q.prepare.IsRead := by
  cases q with
  | tryOf key => exact Contest.isRead_seekTry key
  | mayView competition player index => exact Contest.isRead_seekView index
  | _ => exact Contest.isRead_session

theorem Query.isRead_run (q : Query) : q.run.IsRead := by
  refine q.isRead_prepare.bind fun _ => ?_
  cases q with
  | tryOf key => exact (Contest.isRead_demandTry key _).map _
  | puzzleTries x p puzzle index =>
    exact ((Contest.isRead_checkInteger index).bind fun _ => .view _).map _
  | competitionTries x => exact (Action.IsRead.view _).map _
  | playerTries x p => exact (Action.IsRead.view _).map _
  | mayView x p index => exact (Contest.isRead_readView x p index).map _
  | player id => exact (Contest.isRead_readPlayer id).map _
  | competition id => exact (Contest.isRead_readCompetition id).map _

/-! ## Whole calls -/

namespace Opening

variable {c : Contest}

theorem isRead_gate (o : Opening) : o.gate.IsRead :=
  (Contest.isRead_ensureVisible _ _ _).bind fun _ => Contest.isRead_findCompetition _

theorem fetch_agrees (o : Opening) (x : Competition) (c : Contest) : c.Agrees (o.fetch x c).2 :=
  Action.agrees_bind (Contest.isRead_addressOf x).agrees (fun _ _ => ⟨rfl, rfl, rfl, rfl, rfl⟩) c

/-- The opening of a level that cannot be stored makes nothing that an opening does not make. -/
theorem runUnstorable_becomes (me : Holder) (o : Opening) (hs : c.store.Sound)
    (hc : c.store.Cascaded) : c.Becomes none (o.runUnstorable me c).2 ∨
      c.Becomes (some (o.key, .opening o.level c.now)) (o.runUnstorable me c).2 := by
  unfold runUnstorable
  by_cases hissued : (o.run me c).2.store.issued = c.store.issued
  · simp only [if_pos hissued]
    exact run_becomes me o hs hc
  · simp only [if_neg hissued]
    exact .inl (.same ⟨rfl, rfl, rfl, rfl, rfl⟩)

/-- Around an opening, the gates before it and the catalog after it change no try. -/
theorem becomes_of_middle {o : Opening} {middle : Action (Try Nat)}
    (hmiddle : ∀ c : Contest, c.store.Sound → c.store.Cascaded → c.Becomes none (middle c).2 ∨
      c.Becomes (some (o.key, .opening o.level c.now)) (middle c).2)
    (hs : c.store.Sound) (hc : c.store.Cascaded) :
    c.Becomes none ((do let x ← o.gate; let _ ← middle; o.fetch x) c).2 ∨
      c.Becomes (some (o.key, .opening o.level c.now))
        ((do let x ← o.gate; let _ ← middle; o.fetch x) c).2 := by
  have hgate := o.isRead_gate.agrees c
  rw [Action.bind_apply]
  cases hx : o.gate c with
  | mk x c₁ =>
    rw [hx] at hgate
    cases x with
    | error e => exact .inl (.same hgate)
    | ok x =>
      simp only [Action.bind_apply]
      have hrun := hmiddle c₁ (hgate.store_eq ▸ hs) (hgate.store_eq ▸ hc)
      cases ht : middle c₁ with
      | mk t c₂ =>
        rw [ht, hgate.now_eq] at hrun
        cases t with
        | error e => exact hrun.imp hgate.becomes hgate.becomes
        | ok t =>
          have hfetch := o.fetch_agrees x c₂
          exact hrun.imp (fun h => hgate.becomes (h.agrees hfetch))
            fun h => hgate.becomes (h.agrees hfetch)

end Opening

namespace Attempt

variable {c : Contest}

theorem isRead_checkTry (t : Try Nat) : (checkTry t).IsRead := by
  intro c
  unfold checkTry
  split
  · exact ⟨c.schedule, rfl⟩
  · split <;> exact ⟨c.schedule, rfl⟩

theorem isRead_gate (a : Attempt) : a.gate.IsRead :=
  (Contest.isRead_checkStep _).bind fun _ => (Contest.isRead_ensureVisible _ _ _).bind fun _ =>
    (Contest.isRead_findCompetition _).bind fun _ => (Contest.isRead_seekTry _).bind fun _ =>
      ((Contest.isRead_demandTry _ _).bind fun _ => isRead_checkTry _).bind fun _ => .pure _

theorem check_agrees (a : Attempt) (x : Competition) (c : Contest) : c.Agrees (a.check x c).2 :=
  Action.agrees_bind (Contest.isRead_addressOf x).agrees (fun _ _ => ⟨rfl, rfl, rfl, rfl, rfl⟩) c

/-- An attempt that fails leaves everything as it is, and one that returns a verdict is the answer
with this verdict. -/
theorem play_becomes (me : Holder) (a : Attempt) (hs : c.store.Sound) (hc : c.store.Cascaded) :
    (∃ e, (a.play me c).1 = .error e ∧ c.Becomes none (a.play me c).2) ∨
      ∃ v, (a.play me c).1 = .ok v ∧
        c.Becomes (some (a.key, .answer c.now a.answer v.correct)) (a.play me c).2 := by
  have hgate := a.isRead_gate.agrees c
  unfold play
  rw [Action.bind_apply]
  cases hx : a.gate c with
  | mk x c₁ =>
    rw [hx] at hgate
    cases x with
    | error e => exact .inl ⟨e, rfl, .same hgate⟩
    | ok x =>
      have hcheck := a.check_agrees x c₁
      simp only [Action.bind_apply]
      cases hv : a.check x c₁ with
      | mk v c₂ =>
        rw [hv] at hcheck
        cases v with
        | error e => exact .inl ⟨e, rfl, hgate.becomes (.same hcheck)⟩
        | ok correct =>
          have hstore : c₂.store = c.store := hcheck.store_eq.trans hgate.store_eq
          have hnow : c₂.now = c.now := hcheck.now_eq.trans hgate.now_eq
          have hrun := (a.judged correct).run_becomes me (hstore ▸ hs) (hstore ▸ hc)
          dsimp only
          cases hrecord : (a.judged correct).run me c₂ with
          | mk result c₃ =>
            rw [hrecord, hnow] at hrun
            rcases hrun with ⟨e, hresult, hsame⟩ | ⟨t, hresult, hbecomes⟩
            · change result = .error e at hresult
              subst hresult
              exact .inl ⟨e, rfl, hgate.becomes (hcheck.becomes hsame)⟩
            · change result = .ok t at hresult
              subst hresult
              exact .inr ⟨⟨correct, t⟩, rfl, hgate.becomes (hcheck.becomes hbecomes)⟩

end Attempt

namespace Call

variable {c : Contest}

/-- The key on which a call with some result has recorded a submission, if it has. -/
def recorded? : Call → Except Failure Answer → Option Try.Key
  | .submit s, .ok _ => some s.key
  | .answer a, .ok _ => some a.key
  | _, _ => none

/-- The key of the try that was answered, if one was. -/
def answered? : Option (Try.Key × Deal) → Option Try.Key
  | some (key, .answer _ _ _) => some key
  | _ => none

/-- Every whole call makes nothing of a contest or one change, and it answers a try exactly if it is a
submission or an attempt that returns. -/
theorem run_becomes (me : Holder) (call : Call) (hs : c.store.Sound) (hc : c.store.Cascaded) :
    ∃ what, c.Becomes what (call.run me c).2 ∧
      call.recorded? (call.run me c).1 = answered? what := by
  cases call with
  | trigger o =>
    rcases o.run_becomes me hs hc with h | h
    · exact ⟨_, h, rfl⟩
    · exact ⟨_, h, rfl⟩
  | submit s =>
    rcases s.run_becomes me hs hc with ⟨e, hresult, h⟩ | ⟨t, hresult, h⟩
    · refine ⟨_, h, ?_⟩
      simp [run, Action.map, hresult, recorded?, answered?, Except.map]
    · refine ⟨_, h, ?_⟩
      simp [run, Action.map, hresult, recorded?, answered?, Except.map, Submission.deal]
  | visit o =>
    rcases Opening.becomes_of_middle (fun c => o.run_becomes me) hs hc with h | h
    · exact ⟨_, h, rfl⟩
    · exact ⟨_, h, rfl⟩
  | answer a =>
    rcases a.play_becomes me hs hc with ⟨e, hresult, h⟩ | ⟨v, hresult, h⟩
    · refine ⟨_, h, ?_⟩
      simp [run, Action.map, hresult, recorded?, answered?, Except.map]
    · refine ⟨_, h, ?_⟩
      simp [run, Action.map, hresult, recorded?, answered?, Except.map]
  | ask q => exact ⟨none, .same (q.isRead_run.agrees c), rfl⟩

end Call

end PuzzleContest
