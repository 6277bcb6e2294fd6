import PuzzleContest.Proofs.Roll

/-!
# What becomes of an audience

A message of the broadcast hub is taken by some of the listeners of its competition and the others are
dropped.  Serving them one after another comes to what can be said without any order: a listener takes
the message, or is dropped and told to close, whatever becomes of the others, and the roster keeps
those who took it.  What a service comes to is settled when it sets out: no step changes it, and
neither does time.

Main definitions:

- `Listener.Takes`: the listener takes a message within the time it has.
- `Audience.serveAll`: listeners are served one after another.
- `Audience.fanned`: what becomes of an audience, without any order.
- `Service.outcome`: what a service comes to.

Main results:

- `Listener.success_send_iff`: sending succeeds when the listener takes the message.
- `Audience.Proper.serveAll_eq_fanned`: every order comes to the same.
- `Audience.Proper.fanned`: what becomes of a proper audience is one.
- `Service.outcome_arrange?`, `Service.outcome_conclude?`, `Service.outcome_elapse`: what a service
  comes to stays the same.
-/

namespace PuzzleContest.Relay

variable {μ : Type}

/-! ## Listeners who take a message -/

/-- A listener takes a message within a limit, in nanoseconds: it is still in its grace, or takes
everything at once, or takes less time than that. -/
def Listener.Takes (limit : Nat) (l : Listener μ) : Prop :=
  l.received.length < l.grace ∨ l.manner = .prompt ∨ ∃ delay < (limit : Int), l.manner = .slow delay

theorem Listener.success_send_iff (limit : Nat) (l : Listener μ) :
    (l.send (some limit)).success = true ↔ l.Takes limit := by
  unfold send Takes
  by_cases hgrace : l.received.length < l.grace
  · simp [hgrace]
  · cases hmanner : l.manner with
    | prompt | failing | stuck => simp [hgrace]
    | slow delay => by_cases hdelay : delay < (limit : Int) <;> simp [hgrace, hdelay]

instance (limit : Nat) (l : Listener μ) : Decidable (l.Takes limit) :=
  decidable_of_iff _ (l.success_send_iff limit)

/-- What becomes of a listener of the competition. -/
def Listener.served (limit : Nat) (m : Message μ) (l : Listener μ) : Listener μ :=
  if l.Takes limit then l.receive m else l.dismiss

theorem Listener.name_served (limit : Nat) (m : Message μ) (l : Listener μ) :
    (l.served limit m).name = l.name := by
  unfold served
  split
  · rfl
  · exact l.name_dismiss

namespace Audience

/-- The listener of a name takes a message within a limit. -/
def Takes (a : Audience μ) (limit : Nat) (name : String) : Prop :=
  ∃ l ∈ a.listeners, l.name = name ∧ l.Takes limit

instance (a : Audience μ) (limit : Nat) (name : String) : Decidable (a.Takes limit name) :=
  inferInstanceAs (Decidable (∃ l ∈ a.listeners, l.name = name ∧ l.Takes limit))

variable {a : Audience μ} {limit : Nat} {m : Message μ}

theorem takes_name_iff (hnodup : a.names.Nodup) {l : Listener μ} (hl : l ∈ a.listeners) :
    a.Takes limit l.name ↔ l.Takes limit := by
  constructor
  · rintro ⟨l', hl', hname, htakes⟩
    rwa [← List.inj_on_of_nodup_map hnodup hl' hl hname]
  · exact fun htakes => ⟨l, hl, rfl, htakes⟩

/-! ## One after another -/

/-- A listener is served: it takes the message, or is dropped and told to close. -/
def serve (patience : Option Nat) (m : Message μ) (a : Audience μ) (name : String) : Audience μ :=
  match a.find? name with
  | none => a
  | some l => if (l.send patience).success then a.receive name m else a.drop m.competition name

/-- Listeners are served one after another. -/
def serveAll (patience : Option Nat) (m : Message μ) (a : Audience μ) (order : List String) :
    Audience μ := order.foldl (serve patience m) a

/-- Some listeners have been served, in whatever order. -/
def partly (limit : Nat) (m : Message μ) (a : Audience μ) (done : List String) : Audience μ :=
  { listeners := a.listeners.map fun l => if l.name ∈ done then l.served limit m else l
    roster := a.roster.keep m.competition fun name => name ∉ done ∨ a.Takes limit name }

/-- What becomes of an audience when all listeners of the competition have been served. -/
def fanned (limit : Nat) (m : Message μ) (a : Audience μ) : Audience μ :=
  { listeners := a.listeners.map fun l =>
      if l.name ∈ a.roster.members m.competition then l.served limit m else l
    roster := a.roster.keep m.competition fun name => a.Takes limit name }

theorem names_partly (limit : Nat) (m : Message μ) (a : Audience μ) (done : List String) :
    (a.partly limit m done).names = a.names := by
  simp only [names, partly, List.map_map]
  apply List.map_congr_left
  intro l _
  simp only [Function.comp]
  split
  · exact l.name_served limit m
  · rfl

/-- What becomes of a listener that has not been served is open. -/
theorem takes_partly_iff {done : List String} {name : String} (hname : name ∉ done) :
    (a.partly limit m done).Takes limit name ↔ a.Takes limit name := by
  constructor
  · rintro ⟨l', hl', hname', htakes⟩
    obtain ⟨l, hl, rfl⟩ := List.mem_map.1 hl'
    by_cases hdone : l.name ∈ done
    · rw [if_pos hdone, Listener.name_served] at hname'
      exact absurd (hname' ▸ hdone) hname
    · rw [if_neg hdone] at hname' htakes
      exact ⟨l, hl, hname', htakes⟩
  · rintro ⟨l, hl, rfl, htakes⟩
    exact ⟨l, List.mem_map.2 ⟨l, hl, if_neg hname⟩, rfl, htakes⟩

theorem partly_nil (ha : a.roster.Filled) : a.partly limit m [] = a := by
  have hroster : a.roster.keep m.competition (fun name => name ∉ [] ∨ a.Takes limit name) =
      a.roster := ha.keep_all (by simp)
  rw [partly, hroster]
  simp only [List.not_mem_nil, if_false, List.map_id']

/-- To serve one listener is to have served it. -/
theorem serve_eq_partly (ha : a.Proper) {name : String} (hname : name ∈ a.names) :
    a.serve (some limit) m name = a.partly limit m [name] := by
  obtain ⟨l, hl, rfl⟩ := List.mem_map.1 hname
  have hlisteners : ∀ f : Listener μ → Listener μ, f l = l.served limit m →
      a.listeners.map (fun l' => if l'.name = l.name then f l' else l') =
        (a.partly limit m [l.name]).listeners := by
    intro f hf
    apply List.map_congr_left
    intro l' hl'
    simp only [List.mem_singleton]
    split
    · rename_i hsame
      rw [List.inj_on_of_nodup_map ha.names_nodup hl' hl hsame, hf]
    · rfl
  have hfind := find?_eq_some_of_mem ha.names_nodup hl
  have htakes : a.Takes limit l.name ↔ l.Takes limit := takes_name_iff ha.names_nodup hl
  by_cases hsuccess : l.Takes limit
  · have hroster : a.roster = (a.partly limit m [l.name]).roster := by
      refine (ha.filled.keep_all fun e _ _ name _ => ?_).symm
      by_cases hsame : name = l.name <;> simp [hsame, htakes, hsuccess]
    have hserved := hlisteners (·.receive m) (if_pos hsuccess).symm
    simp only [serve, hfind, (l.success_send_iff limit).2 hsuccess, if_true, receive, update, hserved]
    rw [hroster]
  · have hfails : (l.send (some limit)).success = false := by
      rw [← Bool.not_eq_true, l.success_send_iff limit]
      exact hsuccess
    have hroster : a.roster.discard m.competition l.name = (a.partly limit m [l.name]).roster := by
      rw [Roster.discard_eq_keep]
      refine Roster.keep_congr fun e _ _ name _ => ?_
      by_cases hsame : name = l.name <;> simp [hsame, htakes, hsuccess]
    have hserved := hlisteners Listener.dismiss (if_neg hsuccess).symm
    simp only [serve, hfind, hfails, Bool.false_eq_true, if_false, drop, update, hserved, hroster]

theorem Proper.partly (ha : a.Proper) (limit : Nat) (m : Message μ) (done : List String) :
    (a.partly limit m done).Proper := ha.keep (names_partly limit m a done) rfl

/-- To serve some and then others is to serve all of them. -/
theorem partly_partly {done later : List String} (hdisjoint : ∀ name ∈ done, name ∉ later) :
    (a.partly limit m done).partly limit m later = a.partly limit m (done ++ later) := by
  have hlisteners : ((a.partly limit m done).partly limit m later).listeners =
      (a.partly limit m (done ++ later)).listeners := by
    simp only [Audience.partly, List.map_map]
    apply List.map_congr_left
    intro l _
    simp only [Function.comp, List.mem_append]
    by_cases hdone : l.name ∈ done
    · simp [hdone, Listener.name_served, hdisjoint _ hdone]
    · simp [hdone]
  have hroster : ((a.partly limit m done).partly limit m later).roster =
      (a.partly limit m (done ++ later)).roster := by
    refine (Roster.keep_keep _ _ _ _).trans (Roster.keep_congr fun e _ _ name _ => ?_)
    by_cases hdone : name ∈ done
    · simp [hdone, hdisjoint _ hdone]
    · simp [hdone, takes_partly_iff hdone]
  calc (a.partly limit m done).partly limit m later
      = ⟨((a.partly limit m done).partly limit m later).listeners,
          ((a.partly limit m done).partly limit m later).roster⟩ := rfl
    _ = a.partly limit m (done ++ later) := by rw [hlisteners, hroster]

/-- Serving listeners one after another comes to having served them, in whatever order. -/
theorem Proper.serveAll_eq_partly (ha : a.Proper) {order : List String} (hnodup : order.Nodup)
    (hknown : ∀ name ∈ order, name ∈ a.names) :
    a.serveAll (some limit) m order = a.partly limit m order := by
  induction order generalizing a with
  | nil => exact (partly_nil ha.filled).symm
  | cons name rest ih =>
    obtain ⟨hfresh, hrest⟩ := List.nodup_cons.1 hnodup
    have hserve : a.serve (some limit) m name = a.partly limit m [name] :=
      serve_eq_partly ha (hknown name List.mem_cons_self)
    have hsame : (a.partly limit m [name]).names = a.names := names_partly limit m a [name]
    calc a.serveAll (some limit) m (name :: rest)
        = (a.partly limit m [name]).serveAll (some limit) m rest := by
          rw [serveAll, List.foldl_cons, hserve, serveAll]
      _ = (a.partly limit m [name]).partly limit m rest :=
          ih (ha.partly limit m [name]) hrest fun n hn =>
            hsame ▸ hknown n (List.mem_cons_of_mem _ hn)
      _ = a.partly limit m (name :: rest) := partly_partly (by simpa using hfresh)

/-- Every order in which the listeners of a competition are served comes to the same. -/
theorem Proper.serveAll_eq_fanned (ha : a.Proper) {order : List String}
    (horder : order.Perm (a.present m.competition)) :
    a.serveAll (some limit) m order = a.fanned limit m := by
  have hmem : ∀ name, name ∈ order ↔ name ∈ a.roster.members m.competition := fun name =>
    horder.mem_iff.trans ha.mem_present_iff
  have hknown : ∀ name ∈ order, name ∈ a.names := fun name hname =>
    (List.mem_filter.1 (horder.subset hname)).1
  have hroster : (a.partly limit m order).roster = (a.fanned limit m).roster := by
    refine Roster.keep_congr fun e he heq name hname => ?_
    have hdone : name ∈ order := by
      rw [hmem, ← heq, Roster.members_eq_of_mem ha.competitions_nodup he]
      exact hname
    simp [hdone]
  rw [ha.serveAll_eq_partly (horder.nodup_iff.2 (ha.nodup_present _)) hknown]
  calc a.partly limit m order
      = ⟨(a.partly limit m order).listeners, (a.fanned limit m).roster⟩ := by rw [← hroster]
    _ = a.fanned limit m := by simp only [Audience.partly, fanned, hmem]

/-- What becomes of a proper audience is a proper one. -/
theorem Proper.fanned (ha : a.Proper) (limit : Nat) (m : Message μ) : (a.fanned limit m).Proper := by
  rw [← ha.serveAll_eq_fanned (List.Perm.refl _), ha.serveAll_eq_partly (ha.nodup_present _)]
  · exact ha.partly limit m _
  · exact fun name hname => (List.mem_filter.1 hname).1

end Audience

variable {patience : Option Nat} {a : Audience μ} {sv : Service μ}

/-! ## What a service comes to -/

/-- What a service comes to, for an audience as it is now. -/
def Service.outcome (patience : Option Nat) (a : Audience μ) (sv : Service μ) : Audience μ :=
  let reached : Audience μ :=
    match sv.errand with
    | some ⟨name, .sending true, _⟩ => a.receive name sv.message
    | some ⟨name, .sending false, _⟩ | some ⟨name, .failed, _⟩ => a.drop sv.message.competition name
    | some ⟨_, .closing, _⟩ | none => a
  reached.serveAll patience sv.message sv.rest

theorem Service.outcome_of_none (herrand : sv.errand = none) :
    sv.outcome patience a = a.serveAll patience sv.message sv.rest := by
  simp only [outcome, herrand]

/-- To set out to a listener is to begin to serve it. -/
theorem Service.outcome_send (patience : Option Nat) (a : Audience μ) (m : Message μ) (name : String)
    (rest : List String) :
    Service.outcome patience a ⟨m, rest, (a.find? name).map (Errand.send patience)⟩ =
      a.serveAll patience m (name :: rest) := by
  rw [Audience.serveAll, List.foldl_cons, Audience.serve]
  cases hfind : a.find? name with
  | none => rfl
  | some l =>
    have hname : l.name = name := by simpa using List.find?_some hfind
    cases hsuccess : (l.send patience).success <;>
      simp [outcome, Errand.send, hsuccess, hname, Audience.serveAll]

/-- Once a listener has been dropped, what closing does makes no difference. -/
theorem Service.outcome_close (patience : Option Nat) (a b : Audience μ) (m : Message μ) (name : String)
    (rest : List String) :
    Service.outcome patience b ⟨m, rest, (a.find? name).bind Errand.close?⟩ =
      b.serveAll patience m rest := by
  cases a.find? name with
  | none => rfl
  | some l => cases hfarewell : l.farewell <;> simp [outcome, Errand.close?, hfarewell]

/-- Arranging what comes next does not change what a service comes to. -/
theorem Service.outcome_arrange? {x : Audience μ × Service μ}
    (h : sv.arrange? patience a = some x) : x.2.outcome patience x.1 = sv.outcome patience a := by
  unfold Service.arrange? at h
  split at h
  · simp at h
  · rename_i name rest herrand hrest
    obtain rfl := Option.some.inj h
    rw [Service.outcome_of_none herrand, hrest]
    exact outcome_send patience a sv.message name rest
  · rename_i name left herrand
    obtain rfl := Option.some.inj h
    have hbefore : sv.outcome patience a =
        (a.drop sv.message.competition name).serveAll patience sv.message sv.rest := by
      simp only [outcome, herrand]
    rw [hbefore]
    exact outcome_close patience a _ sv.message name sv.rest
  · simp at h

/-- The end of a send or a close is what it was expected to be. -/
theorem Service.outcome_conclude? {x : Audience μ × Service μ} (h : sv.conclude? a = some x) :
    x.2.outcome patience x.1 = sv.outcome patience a := by
  unfold Service.conclude? at h
  split at h
  all_goals first
    | (simp at h; done)
    | (rename_i herrand
       obtain rfl := Option.some.inj h
       simp only [outcome, herrand])

/-- Nor does time change what a service comes to. -/
theorem Service.outcome_elapse (patience : Option Nat) (a : Audience μ) (sv : Service μ)
    (nanos : Nat) : (sv.elapse nanos).outcome patience a = sv.outcome patience a := by
  rcases herrand : sv.errand with _ | ⟨name, success | _ | _, left⟩
  · simp [outcome, elapse, herrand]
  · cases success <;> simp [outcome, elapse, herrand]
  · simp [outcome, elapse, herrand]
  · simp [outcome, elapse, herrand]

/-- A service that is over has come to what it comes to. -/
theorem Service.outcome_of_isOver (hover : sv.isOver = true) : sv.outcome patience a = a := by
  simp only [isOver, Bool.and_eq_true, List.isEmpty_iff, Option.isNone_iff_eq_none] at hover
  rw [outcome_of_none hover.2, hover.1]
  rfl

end PuzzleContest.Relay
