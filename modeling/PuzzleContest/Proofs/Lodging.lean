import PuzzleContest.Proofs.Registry
import PuzzleContest.Proofs.Solo

/-!
# What whole calls leave around the tries

A call that runs while nobody else moves asks for the lock of its key at most once and is rid of it at
its end, whether it got the lock or gave up the wait.  So it leaves the locks as it found them, and
the catalog and the timeouts too.

Main results:

- `Opening.runFrom_induction`, `Submission.runFrom_induction`: what every step keeps holds at the end.
- `Deed.Lodged.stride`: how the locks differ from what a deed found, stage by stage.
- `Submission.find?_run`, `Attempt.find?_play`: the try that is returned is the one in the store.
- `Call.run_around`: a whole call leaves the locks, the catalog and the timeouts as they were.
-/

namespace PuzzleContest

/-! ## Properties of whole runs -/

namespace Opening

variable {me : Holder} {o : Opening} {c₀ c : Contest}

/-- What every step of an opening keeps holds when it has run. -/
theorem runFrom_induction {P : Deed → Contest → Prop}
    (hstep : ∀ phase c, Deed.Since c₀ (.opening o phase) c → phase.result? = none →
      P (.opening o phase) c → P (.opening o (o.advance me phase c).1) (o.advance me phase c).2)
    {phase : Phase} (hsince : Deed.Since c₀ (.opening o phase) c) (h : P (.opening o phase) c) :
    P (.opening o (.done (runFrom me o phase c).1)) (runFrom me o phase c).2 := by
  fun_induction runFrom me o phase c with
  | case1 phase c result hresult =>
    rw [Phase.eq_done hresult] at h
    exact h
  | case2 phase c hresult next ih =>
    have hleft : (Deed.opening o phase).isOver = false := by simp [Deed.isOver, hresult]
    exact ih (hsince.advance hleft) (hstep phase c hsince hresult h)

theorem since_arriving (o : Opening) (hs : c.store.Sound) (hc : c.store.Cascaded) :
    Deed.Since c (.opening o .arriving) c :=
  ⟨rfl, rfl, rfl, hs, hc, trivial, fun m hm => absurd hm (by simp [Deed.moment?, Phase.moment?]),
    .before rfl rfl rfl rfl⟩

end Opening

namespace Submission

variable {me : Holder} {s : Submission} {c₀ c : Contest}

/-- What every step of a submission keeps holds when it has run. -/
theorem runFrom_induction {P : Deed → Contest → Prop}
    (hstep : ∀ phase c, Deed.Since c₀ (.submission s phase) c → phase.result? = none →
      P (.submission s phase) c →
        P (.submission s (s.advance me phase c).1) (s.advance me phase c).2)
    {phase : Phase} (hsince : Deed.Since c₀ (.submission s phase) c)
    (h : P (.submission s phase) c) :
    P (.submission s (.done (runFrom me s phase c).1)) (runFrom me s phase c).2 := by
  fun_induction runFrom me s phase c with
  | case1 phase c result hresult =>
    rw [Phase.eq_done hresult] at h
    exact h
  | case2 phase c hresult next ih =>
    have hleft : (Deed.submission s phase).isOver = false := by simp [Deed.isOver, hresult]
    exact ih (hsince.advance hleft) (hstep phase c hsince hresult h)

theorem since_arriving (s : Submission) (hs : c.store.Sound) (hc : c.store.Cascaded) :
    Deed.Since c (.submission s .arriving) c :=
  ⟨rfl, rfl, rfl, hs, hc, trivial, fun m hm => absurd hm (by simp [Deed.moment?, Phase.moment?]),
    .before rfl rfl rfl rfl⟩

end Submission

/-! ## Locks -/

namespace Deed

variable {me : Holder} {d d' : Deed} {c c' : Contest} {r locks : Lock.Registry Try.Key Holder}

/-- Locks that differ from a registry by the one request of a deed. -/
def Asked (me : Holder) (d : Deed) (r locks : Lock.Registry Try.Key Holder) : Prop :=
  ∃ before : Lock.Registry Try.Key Holder,
    before.entries = r.entries ∧ locks = before.enter d.key me

/-- How the locks differ from what a deed found that is alone: by nothing while it is outside, and by
its request while it waits or is inside. -/
def Lodged (me : Holder) (d : Deed) (r locks : Lock.Registry Try.Key Holder) : Prop :=
  match d.stage with
  | .outside => locks.entries = r.entries
  | .waiting => Asked me d r locks
  | .inside => Asked me d r locks ∧ locks.holder? d.key = some me

theorem lodged_outside (hstage : d.stage = .outside) (h : locks.entries = r.entries) :
    Lodged me d r locks := by
  unfold Lodged
  rw [hstage]
  exact h

theorem lodged_inside (hstage : d.stage = .inside) (hasked : Asked me d r locks)
    (hholder : locks.holder? d.key = some me) : Lodged me d r locks := by
  unfold Lodged
  rw [hstage]
  exact ⟨hasked, hholder⟩

theorem Lodged.entries_eq (h : Lodged me d r locks) (hstage : d.stage = .outside) :
    locks.entries = r.entries := by
  unfold Lodged at h
  rw [hstage] at h
  exact h

theorem Lodged.asked (h : Lodged me d r locks) (hstage : d.stage = .waiting) :
    Asked me d r locks := by
  unfold Lodged at h
  rw [hstage] at h
  exact h

theorem Lodged.held (h : Lodged me d r locks) (hstage : d.stage = .inside) :
    Asked me d r locks ∧ locks.holder? d.key = some me := by
  unfold Lodged at h
  rw [hstage] at h
  exact h

/-- A deed that keeps its call and its stage stays lodged as it is. -/
theorem Lodged.congr (h : Lodged me d r locks) (hcall : d'.call = d.call)
    (hstage : d'.stage = d.stage) : Lodged me d' r locks := by
  have hkey : d'.key = d.key := congrArg keyOf hcall
  unfold Lodged Asked at h ⊢
  rw [hstage, hkey]
  exact h

/-- Each step of a deed that is alone changes the locks as its stage says. -/
theorem Lodged.stride (hr : r.Orderly) (hnew : ¬r.Uses d.key me) (h : Lodged me d r c.locks)
    (hstride : Stride me d c d' c') : Lodged me d' r c'.locks := by
  have hbefore : ∀ {before : Lock.Registry Try.Key Holder}, before.entries = r.entries →
      before.Orderly ∧ ¬before.Uses d.key me := by
    intro before hentries
    refine ⟨hr.congr hentries, ?_⟩
    rintro ⟨e, he, huse⟩
    rw [Lock.Registry.find?_congr hentries] at he
    exact hnew ⟨e, he, huse⟩
  cases hstride with
  | read hkeeps hstage => exact h.congr hkeeps.call_eq hstage
  | entered hkeeps hstage hnext =>
    have hkey : d'.key = d.key := congrArg keyOf hkeeps.call_eq
    have hasked : Asked me d' r (c.enter d.key me).locks :=
      ⟨c.locks, h.entries_eq hstage, by rw [hkey]; rfl⟩
    by_cases hholds : (c.enter d.key me).locks.holds d.key me = true
    · rw [if_pos hholds] at hnext
      refine lodged_inside hnext hasked ?_
      rw [hkey]
      simpa [Lock.Registry.holds] using hholds
    · rw [if_neg hholds] at hnext
      unfold Lodged
      rw [hnext]
      exact hasked
  | admitted hkeeps hstage hholds hnext =>
    have hkey : d'.key = d.key := congrArg keyOf hkeeps.call_eq
    rcases h.asked hstage with ⟨before, hentries, hlocks⟩
    refine lodged_inside hnext ⟨before, hentries, by rw [hkey]; exact hlocks⟩ ?_
    rw [hkey]
    simpa [Lock.Registry.holds] using hholds
  | withdrawn hkeeps hstage hholds hnext =>
    rcases h.asked hstage with ⟨before, hentries, hlocks⟩
    have hnot : (before.enter d.key me).holder? d.key ≠ some me := by
      rw [← hlocks]
      simpa [Lock.Registry.holds] using hholds
    have hfound := hbefore hentries
    have hrestored := hfound.1.entries_withdraw_enter hfound.2 hnot
    rw [← hlocks] at hrestored
    exact lodged_outside hnext (hrestored.trans hentries)
  | committed hcall hstage hnext => exact h.congr hcall (hnext.trans hstage.symm)
  | left hcall hstage hnext =>
    rcases h.held hstage with ⟨⟨before, hentries, hlocks⟩, hholder⟩
    rw [hlocks] at hholder
    have hfound := hbefore hentries
    have hrestored := hfound.1.entries_leave_enter hfound.2 hholder
    rw [← hlocks] at hrestored
    exact lodged_outside hnext (hrestored.trans hentries)

end Deed

namespace Contest

/-- The same lies around the tries: the catalog, the timeouts and the locks in use. -/
structure SameAround (c c' : Contest) : Prop where
  catalog_eq : c'.catalog = c.catalog
  client_eq : c'.client = c.client
  lockTimeout_eq : c'.lockTimeout = c.lockTimeout
  entries_eq : c'.locks.entries = c.locks.entries

theorem SameAround.refl (c : Contest) : c.SameAround c := ⟨rfl, rfl, rfl, rfl⟩

theorem SameAround.trans {c c' c'' : Contest} (h : c.SameAround c') (h' : c'.SameAround c'') :
    c.SameAround c'' :=
  ⟨h'.catalog_eq.trans h.catalog_eq, h'.client_eq.trans h.client_eq,
    h'.lockTimeout_eq.trans h.lockTimeout_eq, h'.entries_eq.trans h.entries_eq⟩

/-- A caller who may come to some key: the locks are orderly, and the caller is not among their
users. -/
structure Admits (c : Contest) (key : Try.Key) (me : Holder) : Prop where
  locks : c.locks.Orderly
  new : ¬c.locks.Uses key me

theorem Admits.around {c c' : Contest} {key : Try.Key} {me : Holder} (h : c.Admits key me)
    (haround : c.SameAround c') : c'.Admits key me := by
  refine ⟨h.locks.congr haround.entries_eq, ?_⟩
  rintro ⟨e, he, huse⟩
  rw [Lock.Registry.find?_congr haround.entries_eq] at he
  exact h.new ⟨e, he, huse⟩

end Contest

/-! ## Deeds alone -/

namespace Deed

variable {me : Holder} {d d' : Deed} {c₀ c c' : Contest}

/-- What a deed that is alone has left as it found it: the catalog and the timeouts, the requests, and
the locks but for its own place. -/
structure Apart (me : Holder) (c₀ : Contest) (d : Deed) (c : Contest) : Prop where
  catalog_eq : c.catalog = c₀.catalog
  client_eq : c.client = c₀.client
  lockTimeout_eq : c.lockTimeout = c₀.lockTimeout
  requests_eq : c.requests = c₀.requests
  lodged : Lodged me d c₀.locks c.locks

theorem Apart.stride (hc₀ : c₀.Admits d.key me) (h : Apart me c₀ d c)
    (hstride : Stride me d c d' c') : Apart me c₀ d' c' := by
  have hlodged := h.lodged.stride hc₀.locks hc₀.new hstride
  cases hstride <;>
    exact ⟨h.catalog_eq, h.client_eq, h.lockTimeout_eq, h.requests_eq, hlodged⟩

theorem apart_self (hstage : d.stage = .outside) : Apart me c d c :=
  ⟨rfl, rfl, rfl, rfl, lodged_outside hstage rfl⟩

theorem Apart.around (h : Apart me c₀ d c) (hstage : d.stage = .outside) : c₀.SameAround c :=
  ⟨h.catalog_eq, h.client_eq, h.lockTimeout_eq, h.lodged.entries_eq hstage⟩

end Deed

namespace Opening

variable {me : Holder} {o : Opening} {c : Contest}

/-- A whole opening leaves the locks, the catalog and the timeouts as they were, and sends nothing. -/
theorem run_around (o : Opening) (hs : c.store.Sound) (hc : c.store.Cascaded)
    (hme : c.Admits o.key me) :
    c.SameAround (o.run me c).2 ∧ (o.run me c).2.requests = c.requests := by
  have hend : Deed.Apart me c (.opening o (.done (o.run me c).1)) (o.run me c).2 := by
    refine runFrom_induction (P := Deed.Apart me c) ?_ (since_arriving o hs hc)
      (Deed.apart_self rfl)
    intro phase c' hsince hleft h
    have hadmits : c.Admits (Deed.opening o phase).key me := hme
    exact h.stride hadmits (Deed.stride_advance me hsince.store hsince.cascaded hsince.informed).1
  exact ⟨hend.around rfl, hend.requests_eq⟩

end Opening

namespace Submission

variable {me : Holder} {s : Submission} {c c' : Contest}

/-- A whole submission leaves the locks, the catalog and the timeouts as they were, and sends
nothing. -/
theorem run_around (s : Submission) (hs : c.store.Sound) (hc : c.store.Cascaded)
    (hme : c.Admits s.key me) :
    c.SameAround (s.run me c).2 ∧ (s.run me c).2.requests = c.requests := by
  have hend : Deed.Apart me c (.submission s (.done (s.run me c).1)) (s.run me c).2 := by
    refine runFrom_induction (P := Deed.Apart me c) ?_ (since_arriving s hs hc)
      (Deed.apart_self rfl)
    intro phase c' hsince hleft h
    have hadmits : c.Admits (Deed.submission s phase).key me := hme
    exact h.stride hadmits (Deed.stride_advance me hsince.store hsince.cascaded hsince.informed).1
  exact ⟨hend.around rfl, hend.requests_eq⟩

/-! ## What a submission returns -/

/-- A submission returns the try that it has committed. -/
theorem eq_leaving_of_done {phase : Phase} {t : Try Nat} (hleft : phase.result? = none)
    (h : (s.advance me phase c).1 = .done (.ok t)) :
    ∃ p x, phase = .leaving p (.ok x) ∧ x.entry = t := by
  cases phase with
  | reading p =>
    simp only [advance] at h
    unfold afterJudge at h
    split at h
    · split at h <;> exact absurd h (by simp)
    · exact absurd h (by simp)
  | leaving p result =>
    cases result with
    | error e => exact absurd h (by simp [advance, afterLeave])
    | ok x =>
      simp only [advance, afterLeave_ok, Phase.done.injEq, Except.ok.injEq] at h
      exact ⟨p, x, rfl, h⟩
  | done result => exact absurd hleft (by simp [Phase.result?])
  | arriving | greeting | queueing | waiting | looking | peeking =>
    simp only [advance] at h
    split at h <;> exact absurd h (by simp)
  | committing | closing => exact absurd h (by simp [advance])

end Submission

namespace Deed

variable {me : Holder} {d d' : Deed} {c c' : Contest}

/-- A deed that has something to announce has its commit behind it. -/
theorem Stride.store_eq (h : Stride me d c d' c') (hne : d.tidings ≠ []) : c'.store = c.store := by
  cases h with
  | read | entered | admitted | withdrawn | left => rfl
  | committed _ _ _ hnone => exact absurd hnone hne

/-- What a deed has changed and not announced yet is in the store. -/
def Shows (d : Deed) (c : Contest) : Prop := ∀ n ∈ d.tidings, c.store.find? n.1.key = some n.1

theorem Shows.stride (hs : c.store.Sound) (h : d.Shows c) (hstride : Stride me d c d' c') :
    d'.Shows c' := by
  intro n hn
  cases hstride with
  | read hkeeps => exact h n (hkeeps.tidings_eq ▸ hn)
  | entered hkeeps => exact h n (hkeeps.tidings_eq ▸ hn)
  | admitted hkeeps => exact h n (hkeeps.tidings_eq ▸ hn)
  | withdrawn hkeeps => exact h n (hkeeps.tidings_eq ▸ hn)
  | committed _ _ _ _ _ _ _ hchange => exact hchange.find?_of_mem hs hn
  | left _ _ _ htidings => exact absurd (htidings ▸ hn) List.not_mem_nil

end Deed

namespace Submission

variable {me : Holder} {s : Submission} {c₀ c : Contest}

/-- What a submission has changed and not announced, and what it returns, is in the store. -/
def Tells (d : Deed) (c : Contest) : Prop :=
  d.Shows c ∧ ∀ s t, d = .submission s (.done (.ok t)) → c.store.find? t.key = some t

theorem Tells.advance {phase : Phase} (hsince : Deed.Since c₀ (.submission s phase) c)
    (hleft : phase.result? = none) (h : Tells (.submission s phase) c) :
    Tells (.submission s (s.advance me phase c).1) (s.advance me phase c).2 := by
  have hstride : Deed.Stride me (.submission s phase) c (.submission s (s.advance me phase c).1)
      (s.advance me phase c).2 :=
    (Deed.stride_advance me hsince.store hsince.cascaded hsince.informed).1
  refine ⟨h.1.stride hsince.store hstride, ?_⟩
  rintro s' t heq
  rw [Deed.submission.injEq] at heq
  rcases eq_leaving_of_done hleft heq.2 with ⟨p, x, rfl, rfl⟩
  have hmem : (x.entry, News.changed) ∈ (Phase.leaving p (.ok x)).tidings := List.mem_cons_self
  rw [hstride.store_eq (List.ne_nil_of_mem hmem)]
  exact h.1 _ hmem

/-- The try that a submission returns is the one in the store. -/
theorem find?_run (me : Holder) (s : Submission) (hs : c.store.Sound) (hc : c.store.Cascaded)
    {t : Try Nat}
    (h : (s.run me c).1 = .ok t) : (s.run me c).2.store.find? s.key = some t := by
  have hstart : Tells (.submission s .arriving) c := by
    refine ⟨fun n hn => absurd hn List.not_mem_nil, ?_⟩
    intro s' t heq
    exact absurd heq (by simp)
  have hsince : Deed.Since c (.submission s (.done (s.run me c).1)) (s.run me c).2 :=
    since_runFrom (since_arriving s hs hc)
  have htells : Tells (.submission s (.done (s.run me c).1)) (s.run me c).2 :=
    runFrom_induction (P := Tells) (fun phase c hsince hleft h => h.advance hsince hleft)
      (since_arriving s hs hc) hstart
  have hknows : (s.run me c).2.store.Knows s.key t := hsince.informed t h
  rw [← hknows.1]
  exact htells.2 s t (by rw [h])

end Submission

/-! ## Whole calls -/

namespace Action

variable {α β : Type} {x : Action α} {c : Contest}

theorem IsRead.around (hx : x.IsRead) (c : Contest) : c.SameAround (x c).2 := by
  rcases hx c with ⟨schedule, hschedule⟩
  rw [hschedule]
  exact ⟨rfl, rfl, rfl, rfl⟩

/-- A sequence of actions leaves what lies around as it was, if both do where they take place. -/
theorem around_bind {f : α → Action β} (hx : c.SameAround (x c).2)
    (hf : ∀ a, (x c).1 = .ok a → (x c).2.SameAround (f a (x c).2).2) :
    c.SameAround ((x >>= f) c).2 := by
  rw [bind_apply]
  cases hresult : x c with
  | mk result c' =>
    rw [hresult] at hx hf
    cases result with
    | error e => exact hx
    | ok a => exact hx.trans (hf a rfl)

end Action

namespace Opening

variable {me : Holder} {c : Contest}

theorem fetch_around (o : Opening) (x : Competition) (c : Contest) : c.SameAround (o.fetch x c).2 :=
  Action.around_bind ((Contest.isRead_addressOf x).around c) fun _ _ => ⟨rfl, rfl, rfl, rfl⟩

theorem runUnstorable_around (o : Opening) (hs : c.store.Sound) (hc : c.store.Cascaded)
    (hme : c.Admits o.key me) : c.SameAround (o.runUnstorable me c).2 := by
  unfold runUnstorable
  by_cases hissued : (o.run me c).2.store.issued = c.store.issued
  · simp only [if_pos hissued]
    exact (o.run_around hs hc hme).1
  · simp only [if_neg hissued]
    exact ⟨rfl, rfl, rfl, rfl⟩

/-- Around an opening, the gates before it and the catalog after it leave what lies around. -/
theorem around_of_middle {o : Opening} {middle : Action (Try Nat)}
    (hmiddle : ∀ c : Contest, c.store.Sound → c.store.Cascaded → c.Admits o.key me →
      c.SameAround (middle c).2)
    (hs : c.store.Sound) (hc : c.store.Cascaded) (hme : c.Admits o.key me) :
    c.SameAround ((do let x ← o.gate; let _ ← middle; o.fetch x) c).2 := by
  have hgate := o.isRead_gate.around c
  have hstore := (o.isRead_gate.agrees c).store_eq
  refine Action.around_bind hgate fun x _ => ?_
  refine Action.around_bind ?_ fun t _ => o.fetch_around x _
  exact hmiddle _ (hstore ▸ hs) (hstore ▸ hc) (hme.around hgate)

end Opening

namespace Attempt

variable {me : Holder} {c : Contest}

theorem check_around (a : Attempt) (x : Competition) (c : Contest) : c.SameAround (a.check x c).2 :=
  Action.around_bind ((Contest.isRead_addressOf x).around c) fun _ _ => ⟨rfl, rfl, rfl, rfl⟩

/-- A whole answer leaves the locks, the catalog and the timeouts as they were. -/
theorem play_around (a : Attempt) (hs : c.store.Sound) (hc : c.store.Cascaded)
    (hme : c.Admits a.key me) : c.SameAround (a.play me c).2 := by
  have hgate := a.isRead_gate.around c
  have hstore := (a.isRead_gate.agrees c).store_eq
  refine Action.around_bind hgate fun x _ => ?_
  have hcheck := a.check_around x (a.gate c).2
  have hstore' := (a.check_agrees x (a.gate c).2).store_eq.trans hstore
  refine Action.around_bind hcheck fun correct _ => ?_
  refine Action.around_bind ?_ fun t _ => .refl _
  exact ((a.judged correct).run_around (hstore' ▸ hs) (hstore' ▸ hc)
    (hme.around (hgate.trans hcheck))).1

/-- The try that an answer returns is the one in the store. -/
theorem find?_play {a : Attempt} {v : Verdict} (hs : c.store.Sound) (hc : c.store.Cascaded)
    (h : (a.play me c).1 = .ok v) : (a.play me c).2.store.find? a.key = some v.entry := by
  cases hplay : a.play me c with
  | mk result c' =>
    rw [hplay] at h
    change result = .ok v at h
    subst h
    rcases Action.bind_eq_ok hplay with ⟨x, c₁, hgate, hplay⟩
    rcases Action.bind_eq_ok hplay with ⟨correct, c₂, hcheck, hplay⟩
    rcases Action.bind_eq_ok hplay with ⟨t, c₃, hrun, hv⟩
    have hstore : c₂.store = c.store := by
      have hasked := (a.check_agrees x c₁).store_eq
      rw [hcheck] at hasked
      exact hasked.trans (a.isRead_gate.agrees_of_eq hgate).store_eq
    have hreturned : ((a.judged correct).run me c₂).1 = .ok t := by rw [hrun]
    have hfind := (a.judged correct).find?_run me (hstore ▸ hs) (hstore ▸ hc) hreturned
    rw [hrun] at hfind
    simp only [Action.pure_apply, Prod.mk.injEq, Except.ok.injEq] at hv
    rw [← hv.1, ← hv.2]
    exact hfind

end Attempt

/-- A whole call leaves the locks, the catalog and the timeouts as they were. -/
theorem Call.run_around {me : Holder} {c : Contest} (call : Call) (hs : c.store.Sound)
    (hc : c.store.Cascaded) (hme : ∀ key, c.Admits key me) : c.SameAround (call.run me c).2 := by
  cases call with
  | trigger o => exact (o.run_around hs hc (hme o.key)).1
  | submit s => exact (s.run_around hs hc (hme s.key)).1
  | visit o =>
    exact Opening.around_of_middle (fun c hs hc hme => (o.run_around hs hc hme).1) hs hc (hme o.key)
  | answer a => exact a.play_around hs hc (hme a.key)
  | ask q => exact q.isRead_run.around c

end PuzzleContest
