import PuzzleContest.Proofs.Fanout

/-!
# Listeners who take everything at once

When a courier of the broadcast hub has nothing to do, and all listeners take everything at once, what a
relay is told has come to its end before any time passes.  A published message then has reached the
listeners of its competition, nobody has been dropped, and the relay is as idle as before.

Main definitions:

- `Relay.Attentive`: an idle relay whose listeners take everything at once.
- `Audience.hearAll`: each listener has received the messages of its competitions.

Main results:

- `Relay.Attentive.publishAll`: published messages have reached the listeners of their competitions.
- `Relay.Attentive.subscribe`: a new listener is on the roster of one competition.
- `Relay.Attentive.leaveAll`: a listener who leaves some competitions, one by one.
-/

namespace PuzzleContest.Relay

variable {μ : Type} {r : Relay μ} {a : Audience μ} {m : Message μ}

/-! ## What listeners hear -/

/-- Each listener has received the messages of its competitions. -/
def Audience.hearAll (a : Audience μ) (ms : List (Message μ)) : Audience μ :=
  { a with
    listeners := a.listeners.map fun l =>
      { l with received :=
          l.received ++ ms.filter fun m => l.name ∈ a.roster.members m.competition } }

theorem Audience.names_hearAll (a : Audience μ) (ms : List (Message μ)) :
    (a.hearAll ms).names = a.names := by
  simp [names, hearAll, Function.comp_def]

theorem Audience.hearAll_nil (a : Audience μ) : a.hearAll [] = a := by
  simp only [hearAll, List.filter_nil, List.append_nil, List.map_id']

/-- Messages may come one after another. -/
theorem Audience.hearAll_hearAll (a : Audience μ) (ms more : List (Message μ)) :
    (a.hearAll ms).hearAll more = a.hearAll (ms ++ more) := by
  simp only [hearAll, List.map_map, List.filter_append, ← List.append_assoc]
  rfl

/-- Listeners who take everything at once. -/
def Audience.Prompt (a : Audience μ) : Prop := ∀ l ∈ a.listeners, l.manner = .prompt

theorem Audience.Prompt.takes (ha : a.Prompt) (limit : Nat) {l : Listener μ}
    (hl : l ∈ a.listeners) : l.Takes limit := .inr (.inl (ha l hl))

theorem Audience.Prompt.hearAll (ha : a.Prompt) (ms : List (Message μ)) : (a.hearAll ms).Prompt := by
  intro l hl
  obtain ⟨l', hl', rfl⟩ := List.mem_map.1 hl
  exact ha l' hl'

/-- To take a message takes no time. -/
theorem Audience.Prompt.send_eq (ha : a.Prompt) (limit : Nat) {l : Listener μ}
    (hl : l ∈ a.listeners) : l.send (some limit) = ⟨true, 0⟩ := by
  simp [Listener.send, ha l hl]

theorem Audience.Prompt.receive (ha : a.Prompt) (name : String) (m : Message μ) :
    (a.receive name m).Prompt := by
  intro l hl
  obtain ⟨l', hl', rfl⟩ := List.mem_map.1 hl
  split <;> exact ha l' hl'

/-- When everybody takes a message, the listeners of its competition have received it and nothing else
has changed. -/
theorem Audience.Prompt.fanned_eq (ha : a.Prompt) (hproper : a.Proper) (limit : Nat)
    (m : Message μ) : a.fanned limit m = a.hearAll [m] := by
  have hroster : a.roster.keep m.competition (fun name => a.Takes limit name) = a.roster := by
    refine hproper.filled.keep_all fun e he _ name hname => decide_eq_true ?_
    obtain ⟨l, hl, rfl⟩ := List.mem_map.1 (hproper.known e he name hname)
    exact ⟨l, hl, rfl, ha.takes limit hl⟩
  have hlisteners : ∀ l ∈ a.listeners,
      (if l.name ∈ a.roster.members m.competition then l.served limit m else l) =
        { l with received :=
            l.received ++ [m].filter fun m => l.name ∈ a.roster.members m.competition } := by
    intro l hl
    by_cases hmem : l.name ∈ a.roster.members m.competition
    · simp [hmem, Listener.served, ha.takes limit hl, Listener.receive]
    · simp [hmem]
  rw [Audience.fanned, hroster, List.map_congr_left hlisteners]
  rfl

/-! ## Idle relays -/

/-- A courier has nothing to do, nobody waits for anything, and all listeners have time for a message and
take it at once. -/
structure Attentive (r : Relay μ) : Prop where
  patience_ne : r.patience ≠ none
  proper : r.audience.Proper
  prompt : r.audience.Prompt
  duty : r.OnDuty
  stops_eq : r.stops = []
  queue_eq : r.queue = []
  delivery_eq : r.delivery = none
  turns_eq : r.turns = []
  joiners_eq : r.joiners = []

/-- An idle relay stays so when its audience changes. -/
theorem Attentive.congr (hr : r.Attentive) {s : Relay μ} (hproper : s.audience.Proper)
    (hprompt : s.audience.Prompt) {completed pulled : Nat}
    (hs : s = { r with audience := s.audience, completed, pulled }) : s.Attentive := by
  rw [hs]
  exact ⟨hr.patience_ne, hproper, hprompt, ⟨hr.duty.couriers_ne, hr.duty.uncalled⟩, hr.stops_eq,
    hr.queue_eq, hr.delivery_eq, hr.turns_eq, hr.joiners_eq⟩

theorem Attentive.resting (hr : r.Attentive) : r.Resting where
  held := fun d hd => absurd hd (by simp [hr.delivery_eq])
  free := fun _ => hr.turns_eq
  idle := fun _ _ => hr.queue_eq
  uncalled := hr.duty.uncalled
  stopping := fun stop hstop => absurd hstop (by simp [hr.stops_eq])

theorem settle_of_resting (hrest : r.Resting) (hqueue : r.queue = []) (hdelivery : r.delivery = none) :
    r.settle = r := by
  have hpull : r.names.findSome? r.pull? = none :=
    List.findSome?_eq_none_iff.2 fun name _ => pull?_eq_none (fun _ => hqueue) name
  have hnone : r.step? = none := by
    rw [step?, arrange?_eq hrest.uncalled hrest.stopping, hpull]
    simp [proceed?, nextTurn?, conclude?, hdelivery, hrest.free hdelivery]
  rw [settle]
  split
  · rename_i s hs
    simp [hnone] at hs
  · rfl

theorem Attentive.settle_eq (hr : r.Attentive) : r.settle = r :=
  settle_of_resting hr.resting hr.queue_eq hr.delivery_eq

theorem nextTurn?_request (hdelivery : r.delivery = none) (hturns : r.turns = []) {t : Turn μ}
    (ht : ∀ sender m, t ≠ .deliver sender m) : (r.request t).nextTurn? = some (r.take t) := by
  cases r
  cases hdelivery
  cases hturns
  cases t with
  | enroll | withdraw => rfl
  | deliver sender m => exact absurd rfl (ht sender m)

/-- A turn that is no delivery is over as soon as it is taken. -/
theorem Attentive.settle_request (hr : r.Attentive) {t : Turn μ}
    (ht : ∀ sender m, t ≠ .deliver sender m) : (r.request t).settle = r.take t := by
  rw [settle_of_nextTurn? (r := r.request t) hr.duty.uncalled hr.resting.stopping
    (pull?_eq_none (r := r.request t) fun _ => hr.queue_eq) hr.delivery_eq
    (nextTurn?_request hr.delivery_eq hr.turns_eq ht)]
  cases t with
  | enroll ticket competition listener =>
    exact settle_of_resting (r := take r _) ⟨hr.resting.held, hr.resting.free, hr.resting.idle,
      hr.resting.uncalled, hr.resting.stopping⟩ hr.queue_eq hr.delivery_eq
  | withdraw ticket competition listener =>
    exact settle_of_resting (r := take r _) ⟨hr.resting.held, hr.resting.free, hr.resting.idle,
      hr.resting.uncalled, hr.resting.stopping⟩ hr.queue_eq hr.delivery_eq
  | deliver sender m => exact absurd rfl (ht sender m)

/-! ## A message is published -/

theorem Attentive.send_eq (hr : r.Attentive) {name : String} {l : Listener μ}
    (hl : r.audience.find? name = some l) : l.send r.patience = ⟨true, 0⟩ ∧ l.name = name := by
  obtain ⟨limit, hlimit⟩ := Option.ne_none_iff_exists'.1 hr.patience_ne
  rw [hlimit]
  exact ⟨hr.prompt.send_eq limit (List.mem_of_find?_eq_some hl), by simpa using List.find?_some hl⟩

theorem Attentive.serve (hr : r.Attentive) (m : Message μ) (name : String) :
    Attentive { r with audience := r.audience.serve r.patience m name } := by
  rw [Audience.serve]
  split
  · exact hr
  · rename_i l hl
    rw [(hr.send_eq hl).1, if_pos rfl]
    exact hr.congr (hr.proper.congr (Audience.names_update _ name fun _ => rfl) rfl)
      (hr.prompt.receive name m) rfl

/-- A message is on its way to listeners, the last of whom may have answered. -/
def underWay (r : Relay μ) (sender : Sender) (m : Message μ) (order : List String)
    (answered : Bool) : Relay μ :=
  { r with delivery := some ⟨sender, { message := m, rest := order }, answered⟩ }

/-- Where nothing is in the queue and nobody has been called off, a delivery goes on. -/
theorem Attentive.step?_eq (hr : r.Attentive) (d : Delivery μ) :
    step? { r with delivery := some d } =
      (proceed? { r with delivery := some d }).or (conclude? { r with delivery := some d }) := by
  have hpull : r.names.findSome? (pull? { r with delivery := some d }) = none :=
    List.findSome?_eq_none_iff.2 fun name _ =>
      pull?_eq_none (r := { r with delivery := some d }) (fun _ => hr.queue_eq) name
  rw [step?, arrange?_eq (r := { r with delivery := some d }) hr.duty.uncalled hr.resting.stopping]
  change (((r.names.findSome? _).or _).or _).or _ = _
  rw [hpull]
  simp [nextTurn?]

theorem Attentive.isHalted_eq (hr : r.Attentive) (d : Delivery μ) (sender : Sender) :
    isHalted { r with delivery := some d } sender = false :=
  isHalted_of_uncalled (r := { r with delivery := some d }) hr.duty.uncalled sender

/-- A listener who takes a message at once is served before the next one is visited. -/
theorem Attentive.settle_underWay_cons (hr : r.Attentive) (sender : Sender) (m : Message μ)
    (name : String) (rest : List String) (answered : Bool) : ∃ answered',
      (r.underWay sender m (name :: rest) answered).settle =
        (({ r with audience := r.audience.serve r.patience m name } : Relay μ).underWay sender m rest
          answered').settle := by
  have hsend : (r.underWay sender m (name :: rest) answered).step? = some { r with
      delivery := some ⟨sender,
        ⟨m, rest, (r.audience.find? name).map (Errand.send r.patience)⟩, false⟩ } := by
    rw [underWay, hr.step?_eq]
    simp [proceed?, hr.isHalted_eq, Service.isOver, Service.arrange?]
  rw [settle_eq_of_step? hsend, Audience.serve]
  cases hfind : r.audience.find? name with
  | none => exact ⟨false, rfl⟩
  | some l =>
    obtain ⟨hcourse, rfl⟩ := hr.send_eq hfind
    refine ⟨true, settle_eq_of_step? ?_⟩
    rw [hr.step?_eq]
    simp [proceed?, hr.isHalted_eq, Service.isOver, Service.arrange?, conclude?, Service.conclude?,
      Errand.send, hcourse, underWay, Service.ending, Ending.ofItself]

/-- Where nobody waits for the end, nobody is let go. -/
theorem release_of_nobody (hjoiners : r.joiners = []) : r.release = r := by
  have hnobody : (if r.unfinished = 0 then [] else r.joiners) = r.joiners := by
    split
    · exact hjoiners.symm
    · rfl
  rw [release, hnobody]

/-- A courier's message goes to one listener after another, all at once. -/
theorem Attentive.settle_underWay (hr : r.Attentive) (courier number : Nat) (m : Message μ)
    (order : List String) (answered : Bool) :
    (r.underWay (.courier courier number) m order answered).settle =
      { r with
        audience := r.audience.serveAll r.patience m order
        completed := r.completed + 1 } := by
  induction order generalizing r answered with
  | nil =>
    have hsame : finish (r.underWay (.courier courier number) m [] answered)
        (.courier courier number) = { r with completed := r.completed + 1 } := by
      refine (release_of_nobody (r := { r with
        delivery := none, completed := r.completed + 1 }) hr.joiners_eq).trans ?_
      rw [← hr.delivery_eq]
    have hfinish : (r.underWay (.courier courier number) m [] answered).step? =
        some { r with completed := r.completed + 1 } := by
      rw [← hsame, underWay, hr.step?_eq]
      simp [proceed?, hr.isHalted_eq, Service.isOver]
    have hdone : Attentive { r with completed := r.completed + 1 } := hr.congr hr.proper hr.prompt rfl
    rw [settle_eq_of_step? hfinish]
    exact hdone.settle_eq
  | cons name rest ih =>
    obtain ⟨answered', hcons⟩ := hr.settle_underWay_cons (.courier courier number) m name rest answered
    rw [hcons, ih (hr.serve m name)]
    rfl

/-- A message that is published has reached the listeners of its competition at once. -/
theorem Attentive.obey_publish_eq (hr : r.Attentive) (m : Message μ) :
    r.obey (.publish ⟨m.competition, some m.body⟩) =
      { r with
        audience := r.audience.hearAll [m], pulled := r.pulled + 1
        completed := r.completed + 1 } := by
  obtain ⟨limit, hlimit⟩ := Option.ne_none_iff_exists'.1 hr.patience_ne
  have hfree : r.parcels = [] := by simp [parcels, hr.delivery_eq, hr.turns_eq]
  obtain ⟨name, hname⟩ := obey_publish hr.resting hr.delivery_eq (hr.duty.exists_isIdle hfree)
    m.competition m.body
  have htaken : Attentive { r with pulled := r.pulled + 1 } := hr.congr hr.proper hr.prompt rfl
  have hsettled := htaken.settle_underWay name r.pulled m (r.audience.present m.competition) false
  rw [hname]
  refine hsettled.trans ?_
  change { r with
    audience := r.audience.serveAll r.patience m _, pulled := _, completed := _ } = _
  rw [hlimit, hr.proper.serveAll_eq_fanned (List.Perm.refl _), hr.prompt.fanned_eq hr.proper]

theorem Attentive.hearAll (hr : r.Attentive) (ms : List (Message μ)) (pulled completed : Nat) :
    Attentive { r with audience := r.audience.hearAll ms, pulled, completed } :=
  hr.congr (hr.proper.congr (Audience.names_hearAll _ ms) rfl) (hr.prompt.hearAll ms) rfl

/-- Messages that are published one after another have reached the listeners of their
competitions. -/
theorem Attentive.publishAll (hr : r.Attentive) (ms : List (Message μ)) :
    ms.foldl (fun r m => r.obey (.publish ⟨m.competition, some m.body⟩)) r =
      { r with
        audience := r.audience.hearAll ms, pulled := r.pulled + ms.length
        completed := r.completed + ms.length } := by
  induction ms generalizing r with
  | nil =>
    rw [Audience.hearAll_nil]
    rfl
  | cons m ms ih =>
    rw [List.foldl_cons, hr.obey_publish_eq m, ih (hr.hearAll [m] _ _)]
    simp only [Audience.hearAll_hearAll, List.singleton_append, List.length_cons]
    simp only [Nat.add_assoc, Nat.add_comm 1]

theorem Attentive.forgetReceived (hr : r.Attentive) : r.forgetReceived.Attentive := by
  refine hr.congr (hr.proper.congr ?_ rfl) ?_ rfl
  · simp [Audience.names, Relay.forgetReceived, Function.comp_def]
  · intro l hl
    obtain ⟨l', hl', rfl⟩ := List.mem_map.1 hl
    exact hr.prompt l' hl'

/-! ## A listener comes -/

theorem Attentive.obey_register (hr : r.Attentive) (ticket : Nat) (competition name : String) :
    r.obey (.register ticket competition name) =
      { r with audience.roster := r.audience.roster.add competition name } :=
  hr.settle_request fun _ _ => by simp

theorem Attentive.obey_unregister (hr : r.Attentive) (ticket : Nat) (competition name : String) :
    r.obey (.unregister ticket competition name) =
      { r with audience.roster := r.audience.roster.discard competition name } :=
  hr.settle_request fun _ _ => by simp

theorem names_introduce (r : Relay μ) (l : Listener μ) :
    (r.introduce l).audience.names = r.audience.names ++ [l.name] := by
  simp [introduce, Audience.names]

theorem Attentive.introduce (hr : r.Attentive) {l : Listener μ} (hfresh : l.name ∉ r.audience.names)
    (hprompt : l.manner = .prompt) : (r.introduce l).Attentive := by
  refine hr.congr ⟨?_, hr.proper.competitions_nodup, hr.proper.filled, ?_⟩ ?_ rfl
  · rw [names_introduce]
    exact List.nodup_append_comm.1 (List.nodup_cons.2 ⟨hfresh, hr.proper.names_nodup⟩)
  · intro e he name hname
    rw [names_introduce]
    exact List.mem_append_left _ (hr.proper.known e he name hname)
  · intro l' hl'
    rcases List.mem_append.1 hl' with hold | hnew
    · exact hr.prompt l' hold
    · obtain rfl := List.mem_singleton.1 hnew
      exact hprompt

/-- A new listener subscribes to one competition. -/
def subscribe (r : Relay μ) (competition : String) (l : Listener μ) : Relay μ :=
  (r.introduce l).obey (.register 0 competition l.name)

theorem Attentive.subscribe_eq (hr : r.Attentive) (competition : String) {l : Listener μ}
    (hfresh : l.name ∉ r.audience.names) (hprompt : l.manner = .prompt) :
    r.subscribe competition l =
      { r with audience := {
          listeners := r.audience.listeners ++ [l]
          roster := r.audience.roster.add competition l.name } } :=
  (hr.introduce hfresh hprompt).obey_register 0 competition l.name

theorem Attentive.subscribe (hr : r.Attentive) (competition : String) {l : Listener μ}
    (hfresh : l.name ∉ r.audience.names) (hprompt : l.manner = .prompt) :
    (r.subscribe competition l).Attentive := by
  have hnew := hr.introduce hfresh hprompt
  rw [hr.subscribe_eq competition hfresh hprompt]
  refine hnew.congr (hnew.proper.add ?_) hnew.prompt rfl
  rw [names_introduce]
  exact List.mem_append_right _ (List.mem_singleton_self _)

/-! ## A listener goes -/

namespace Roster

/-- A listener goes from some competitions. -/
def discardAll (r : Roster) (competitions : List String) (name : String) : Roster :=
  competitions.foldl (fun r competition => r.discard competition name) r

/-- The others stay. -/
theorem mem_members_discardAll_iff {r : Roster} (hnodup : r.competitions.Nodup)
    {name name' : String} (hne : name' ≠ name) (competitions : List String) (competition : String) :
    name' ∈ (r.discardAll competitions name).members competition ↔
      name' ∈ r.members competition := by
  induction competitions generalizing r with
  | nil => exact Iff.rfl
  | cons c rest ih =>
    refine (ih ((r.competitions_keep_sublist c (· ≠ name)).nodup hnodup)).trans ?_
    by_cases hsame : competition = c
    · rw [hsame, members_keep hnodup]
      simp [hne]
    · rw [members_keep_of_ne hsame]

/-- A listener who goes from all competitions is not on the roster. -/
theorem not_mem_of_mem_discardAll {r : Roster} {competitions : List String} {name : String}
    (hall : ∀ e ∈ r.entries, e.1 ∈ competitions ∨ name ∉ e.2) {e : String × List String}
    (he : e ∈ (r.discardAll competitions name).entries) : name ∉ e.2 := by
  induction competitions generalizing r with
  | nil => simpa using hall e he
  | cons c rest ih =>
    refine ih (fun e he => ?_) he
    rcases cases_of_mem_keep he with ⟨hold, hother⟩ | ⟨e₀, -, -, rfl, -⟩
    · rcases hall e hold with hmem | hnot
      · exact .inl ((List.mem_cons.1 hmem).resolve_left hother)
      · exact .inr hnot
    · exact .inr (by simp)

end Roster

theorem Attentive.discard (hr : r.Attentive) (competition name : String) :
    Attentive { r with audience.roster := r.audience.roster.discard competition name } :=
  hr.congr (hr.proper.keep rfl (Roster.discard_eq_keep _ _ _)) hr.prompt rfl

theorem Attentive.leaveAll (hr : r.Attentive) (ticket : Nat) (name : String)
    (competitions : List String) :
    let s := competitions.foldl (fun r competition => r.obey (.unregister ticket competition name)) r
    s.Attentive ∧
      s = { r with audience.roster := r.audience.roster.discardAll competitions name } := by
  induction competitions generalizing r with
  | nil => exact ⟨hr, rfl⟩
  | cons c rest ih =>
    rw [List.foldl_cons, hr.obey_unregister ticket c name]
    exact ih (hr.discard c name)

/-- A listener leaves all competitions and is forgotten. -/
def leave (r : Relay μ) (name : String) : Relay μ :=
  (r.audience.roster.competitions.foldl
    (fun r competition => r.obey (.unregister 0 competition name)) r).retire name

theorem Attentive.leave_eq (hr : r.Attentive) (name : String) :
    r.leave name = { r with audience := {
      listeners := r.audience.listeners.filter fun l => l.name ≠ name
      roster := r.audience.roster.discardAll r.audience.roster.competitions name } } := by
  rw [leave, (hr.leaveAll 0 name r.audience.roster.competitions).2]
  rfl

theorem Attentive.leave (hr : r.Attentive) (name : String) : (r.leave name).Attentive := by
  have hleft := (hr.leaveAll 0 name r.audience.roster.competitions).1
  rw [(hr.leaveAll 0 name r.audience.roster.competitions).2] at hleft
  rw [hr.leave_eq name]
  have hnames : ({ listeners := r.audience.listeners.filter fun l => l.name ≠ name } :
      Audience μ).names = r.audience.names.filter (· ≠ name) := by
    simp only [Audience.names, List.filter_map]
    rfl
  refine hleft.congr ⟨?_, hleft.proper.competitions_nodup, hleft.proper.filled, ?_⟩ ?_ rfl
  · exact hnames ▸ hr.proper.names_nodup.filter _
  · intro e he name' hname'
    have hgone : name ∉ e.2 := Roster.not_mem_of_mem_discardAll
      (fun e he => .inl (List.mem_map_of_mem he)) he
    have hknown : name' ∈ r.audience.names := hleft.proper.known e he name' hname'
    have hne : name' ≠ name := fun heq => hgone (heq ▸ hname')
    exact hnames ▸ List.mem_filter.2 ⟨hknown, decide_eq_true hne⟩
  · exact fun l hl => hr.prompt l (List.mem_filter.1 hl).1

end PuzzleContest.Relay
