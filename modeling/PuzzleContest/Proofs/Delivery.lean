import Mathlib.Data.List.Sort
import PuzzleContest.Proofs.Record

/-!
# Who receives which events

Read against the record of deliveries of the broadcast hub, every listener receives the messages of
events with growing numbers, and only of events that took the turn while the roster named it.

Main definitions:

- `Relay.Delivered`: what a record says about the listeners.
- `Relay.Tracked`: what is kept between the moves, so that the record stays true.

Main results:

- `Relay.Tracked.quiet`, `Relay.Tracked.deliver`, `Relay.Tracked.arrive`: the three kinds of moves.
- `Relay.Tracked.move`, `Relay.Tracked.run`: the record stays true by every move, and by all.
- `Relay.delivered_run`: what each listener receives, from the start on.
-/

namespace PuzzleContest.Relay

variable {μ : Type} {r s : Relay μ} {published : List (Event μ)} {log : List Entry}

/-! ## What the record says -/

/-- The message of an event by its number. -/
def message? (published : List (Event μ)) (number : Nat) : Option (Message μ) :=
  published[number]?.bind Event.message?

/-- Each arrival was preceded by the turn of its event, when the roster named the listener. -/
def Confined (published : List (Event μ)) (log : List Entry) : Prop :=
  ∀ before after number name, log = before ++ .arrived number name :: after →
    ∃ e members, published[number]? = some e ∧ .taken number e.competition members ∈ before ∧
      name ∈ members

/-- What a record says about the listeners. -/
structure Delivered (r : Relay μ) (published : List (Event μ)) (log : List Entry) : Prop where
  /-- A listener has received the messages of the events that arrived at it, one by one. -/
  received : ∀ l ∈ r.audience.listeners,
    l.received.map some = (arrivals l.name log).map (message? published)
  /-- They arrive in the order in which they were published, and none arrives twice. -/
  inOrder : ∀ name, (arrivals name log).Pairwise (· < ·)
  /-- The deliveries take their turns in this order, too. -/
  turnsInOrder : (log.filterMap Entry.take?).Pairwise (· < ·)
  confined : Confined published log

/-- What is kept between the moves, so that the record stays true. -/
structure Tracked (r : Relay μ) (published : List (Event μ)) (log : List Entry) : Prop where
  books : r.Books published
  names_nodup : (r.audience.listeners.map (·.name)).Nodup
  delivered : r.Delivered published log
  /-- An event that has taken its turn is not to come. -/
  take_lt : ∀ n ∈ log.filterMap Entry.take?, ∀ k ∈ r.waiting ++ [r.pulled], n < k
  /-- Of those that have taken their turn, the one in delivery is the last. -/
  take_le : ∀ n ∈ log.filterMap Entry.take?, ∀ d ∈ r.delivery, ∀ k ∈ d.sender.number?, n ≤ k
  /-- No listener that is still to be served has received the event in delivery. -/
  unserved : ∀ d ∈ r.delivery, ∀ k ∈ d.sender.number?, ∀ name ∈ d.service.awaited,
    k ∉ arrivals name log
  /-- The event in delivery goes to different listeners, all named when it took the turn. -/
  current : ∀ d ∈ r.delivery, d.service.awaited.Nodup ∧
    ∀ k ∈ d.sender.number?, ∃ members, .taken k d.service.message.competition members ∈ log ∧
      ∀ name ∈ d.service.awaited, name ∈ members

/-- What was published stays so when more is published. -/
theorem message?_append {number : Nat} {m : Message μ} (h : message? published number = some m)
    (more : List (Event μ)) : message? (published ++ more) number = some m := by
  obtain ⟨e, he, hm⟩ := Option.bind_eq_some_iff.1 h
  obtain ⟨hlt, -⟩ := List.getElem?_eq_some_iff.1 he
  rw [message?, List.getElem?_append_left hlt, he]
  exact hm

theorem Confined.publish (hc : Confined published log) (more : List (Event μ)) :
    Confined (published ++ more) log := by
  intro before after number name hlog
  obtain ⟨e, members, he, hin⟩ := hc before after number name hlog
  obtain ⟨hlt, -⟩ := List.getElem?_eq_some_iff.1 he
  exact ⟨e, members, (List.getElem?_append_left hlt).trans he, hin⟩

/-- More is published. -/
theorem Delivered.publish (hd : r.Delivered published log) (more : List (Event μ)) :
    r.Delivered (published ++ more) log where
  received l hl := by
    rw [hd.received l hl]
    refine List.map_congr_left fun number hnumber => ?_
    have hmem : message? published number ∈ l.received.map some := by
      rw [hd.received l hl]
      exact List.mem_map_of_mem hnumber
    obtain ⟨m, -, hm⟩ := List.mem_map.1 hmem
    rw [← hm, message?_append hm.symm]
  inOrder := hd.inOrder
  turnsInOrder := hd.turnsInOrder
  confined := hd.confined.publish more

/-- Only what the listeners have received matters. -/
theorem Delivered.congr (hd : r.Delivered published log)
    (hheard : s.audience.listeners.map Listener.heard = r.audience.listeners.map Listener.heard) :
    s.Delivered published log where
  received l hl := by
    have hmem : l.heard ∈ r.audience.listeners.map Listener.heard :=
      hheard ▸ List.mem_map_of_mem hl
    obtain ⟨l', hl', hsame⟩ := List.mem_map.1 hmem
    simp only [Listener.heard, Prod.mk.injEq] at hsame
    rw [← hsame.1, ← hsame.2]
    exact hd.received l' hl'
  inOrder := hd.inOrder
  turnsInOrder := hd.turnsInOrder
  confined := hd.confined

/-- A move by which nothing arrives and no delivery begins. -/
theorem Tracked.quiet (ht : r.Tracked published log) (hq : Quiet r s) {more : List (Event μ)}
    (hbooks : s.Books (published ++ more)) : s.Tracked (published ++ more) log where
  books := hbooks
  names_nodup := by
    have hnames := congrArg (List.map Prod.fst) hq.heard
    rw [List.map_map, List.map_map] at hnames
    exact hnames ▸ ht.names_nodup
  delivered := (ht.delivered.congr hq.heard).publish more
  take_lt n hn k hk := by
    obtain ⟨j, hj, hle⟩ := hq.ahead k hk
    exact Nat.lt_of_lt_of_le (ht.take_lt n hn j hj) hle
  take_le n hn d hd k hk := by
    obtain ⟨d', hd', hsender, -⟩ := hq.under d hd
    exact ht.take_le n hn d' hd' k (hsender ▸ hk)
  unserved d hd k hk name hname := by
    obtain ⟨d', hd', hsender, -, hsub⟩ := hq.under d hd
    exact ht.unserved d' hd' k (hsender ▸ hk) name (hsub.subset hname)
  current d hd := by
    obtain ⟨d', hd', hsender, hmessage, hsub⟩ := hq.under d hd
    obtain ⟨hnodup, htaken⟩ := ht.current d' hd'
    rw [hsender, hmessage]
    refine ⟨hnodup.sublist hsub, fun k hk => ?_⟩
    obtain ⟨members, hlog, hnamed⟩ := htaken k hk
    exact ⟨members, hlog, fun name hname => hnamed name (hsub.subset hname)⟩

/-- A record that is extended by one entry. -/
theorem eq_append_cons {before after log : List Entry} {entry last : Entry}
    (h : log ++ [last] = before ++ entry :: after) :
    (∃ after', after = after' ++ [last] ∧ log = before ++ entry :: after') ∨
      after = [] ∧ last = entry ∧ log = before := by
  rcases List.eq_nil_or_concat after with rfl | ⟨after', x, rfl⟩
  · obtain ⟨hlog, hlast⟩ := List.append_inj' h rfl
    simp only [List.cons.injEq, and_true] at hlast
    exact .inr ⟨rfl, hlast, hlog⟩
  · refine .inl ⟨after', ?_⟩
    rw [List.concat_eq_append, ← List.cons_append, ← List.append_assoc] at h
    obtain ⟨hlog, hlast⟩ := List.append_inj' h rfl
    rw [List.concat_eq_append, hlast]
    exact ⟨rfl, hlog⟩

/-- An entry that is no arrival confines nobody. -/
theorem Confined.taken (hc : Confined published log) (number : Nat) (competition : String)
    (members : List String) : Confined published (log ++ [.taken number competition members]) := by
  intro before after n name hlog
  rcases eq_append_cons hlog with ⟨after', -, hold⟩ | ⟨-, hlast, -⟩
  · exact hc before after' n name hold
  · exact absurd hlast (by simp)

theorem Confined.arrived (hc : Confined published log) {number : Nat} {name : String}
    (hnew : ∃ e members, published[number]? = some e ∧ .taken number e.competition members ∈ log ∧
      name ∈ members) : Confined published (log ++ [.arrived number name]) := by
  intro before after n listener hlog
  rcases eq_append_cons hlog with ⟨after', -, hold⟩ | ⟨-, hlast, hold⟩
  · exact hc before after' n listener hold
  · simp only [Entry.arrived.injEq] at hlast
    obtain ⟨rfl, rfl⟩ := hlast
    exact hold ▸ hnew

/-- An event takes the turn at the roster. -/
theorem Delivered.taken (hd : r.Delivered published log) {number : Nat}
    (hlisteners : s.audience.listeners = r.audience.listeners)
    (hearlier : ∀ n ∈ log.filterMap Entry.take?, n < number) (competition : String)
    (members : List String) :
    s.Delivered published (log ++ [.taken number competition members]) where
  received l hl := by
    rw [arrivals_append_taken]
    exact hd.received l (hlisteners ▸ hl)
  inOrder name := by
    rw [arrivals_append_taken]
    exact hd.inOrder name
  turnsInOrder := by
    rw [takes_append_taken]
    exact pairwise_lt_append_iff.2 ⟨hd.turnsInOrder, hearlier⟩
  confined := hd.confined.taken _ _ _

/-- The message of an event arrives at a listener. -/
theorem Delivered.arrived (hd : r.Delivered published log) {number : Nat} {name : String}
    {m : Message μ} (haudience : s.audience = r.audience.receive name m)
    (hm : message? published number = some m) (hearlier : ∀ n ∈ arrivals name log, n < number)
    (hnew : ∃ e members, published[number]? = some e ∧ .taken number e.competition members ∈ log ∧
      name ∈ members) : s.Delivered published (log ++ [.arrived number name]) where
  received l hl := by
    rw [haudience] at hl
    obtain ⟨l', hl', rfl⟩ := List.mem_map.1 hl
    by_cases hname : l'.name = name
    · rw [if_pos hname]
      simp only [Listener.receive, List.map_append, List.map_cons, List.map_nil]
      rw [hname, arrivals_append_arrived, List.map_append, hd.received l' hl', hname,
        List.map_singleton, hm]
    · rw [if_neg hname, arrivals_append_of_ne log number (Ne.symm hname)]
      exact hd.received l' hl'
  inOrder other := by
    by_cases hname : name = other
    · subst hname
      rw [arrivals_append_arrived]
      exact pairwise_lt_append_iff.2 ⟨hd.inOrder _, hearlier⟩
    · rw [arrivals_append_of_ne log number hname]
      exact hd.inOrder other
  turnsInOrder := by
    rw [takes_append_arrived]
    exact hd.turnsInOrder
  confined := hd.confined.arrived hnew

/-- What has arrived had taken its turn. -/
theorem Delivered.mem_takes (hd : r.Delivered published log) {name : String} {n : Nat}
    (hn : n ∈ arrivals name log) : n ∈ log.filterMap Entry.take? := by
  obtain ⟨entry, hentry, harrival⟩ := List.mem_filterMap.1 hn
  obtain ⟨before, after, rfl⟩ := List.append_of_mem hentry
  cases entry with
  | taken number competition members => simp [Entry.arrival?] at harrival
  | arrived number listener =>
    simp only [Entry.arrival?, Option.ite_none_right_eq_some, Option.some.injEq] at harrival
    obtain ⟨rfl, rfl⟩ := harrival
    obtain ⟨e, members, -, htaken, -⟩ := hd.confined before after number listener rfl
    exact List.mem_filterMap.2 ⟨_, List.mem_append_left _ htaken, rfl⟩

/-- The delivery of an event takes the turn at the roster. -/
theorem Tracked.deliver (ht : r.Tracked published log) (hnone : r.delivery = none)
    {name number : Nat} (hfree : r.isCalled name = false) {m : Message μ} {turns : List (Turn μ)}
    (hturns : r.turns = .deliver (.courier name number) m :: turns) :
    (Relay.take { r with turns } (.deliver (.courier name number) m)).Tracked published
      (log ++ [.taken number m.competition (r.audience.roster.members m.competition)]) := by
  have hnext : r.nextTurn? =
      some (Relay.take { r with turns } (.deliver (.courier name number) m)) := by
    simp [Relay.nextTurn?, hnone, hturns, Turn.parcel?, isHalted, hfree]
  have hwaiting : r.waiting = number ::
      (turns.filterMap Turn.parcel?).filterMap (·.1.number?) := by
    simp [waiting, hturns, Turn.parcel?, Sender.number?]
  have hearlier : ∀ n ∈ log.filterMap Entry.take?, n < number := fun n hn =>
    ht.take_lt n hn number (by simp [hwaiting])
  -- The others that wait come later than the one that takes the turn.
  have hlater := ht.books.inOrder
  rw [numbers_eq_waiting hnone, hwaiting, List.cons_append, List.pairwise_cons] at hlater
  refine ⟨ht.books.nextTurn? hnext, ht.names_nodup, ?_, ?_, ?_, ?_, ?_⟩
  · apply ht.delivered.taken _ hearlier
    rfl
  · intro n hn k hk
    rw [takes_append_taken, List.mem_append, List.mem_singleton] at hn
    rcases hn with hold | rfl
    · exact Nat.lt_trans (hearlier n hold) (hlater.1 k hk)
    · exact hlater.1 k hk
  · intro n hn d hd k hk
    obtain rfl := Option.some.inj hd
    obtain rfl : number = k := Option.some.inj hk
    rw [takes_append_taken, List.mem_append, List.mem_singleton] at hn
    rcases hn with hold | rfl
    · exact Nat.le_of_lt (hearlier n hold)
    · exact Nat.le_refl _
  · intro d hd k hk listener _ harrived
    obtain rfl := Option.some.inj hd
    obtain rfl : number = k := Option.some.inj hk
    rw [arrivals_append_taken] at harrived
    exact Nat.lt_irrefl _ (hearlier _ (ht.delivered.mem_takes harrived))
  · intro d hd
    obtain rfl := Option.some.inj hd
    refine ⟨ht.names_nodup.filter _, fun k hk => ?_⟩
    obtain rfl : number = k := Option.some.inj hk
    refine ⟨_, List.mem_append_right _ List.mem_cons_self, ?_⟩
    intro listener hlistener
    simpa using (List.mem_filter.1 hlistener).2

theorem Audience.names_receive (a : Audience μ) (name : String) (m : Message μ) :
    (a.receive name m).listeners.map (·.name) = a.listeners.map (·.name) := by
  simp only [receive, update, List.map_map]
  refine List.map_congr_left fun l _ => ?_
  by_cases hl : l.name = name <;> simp [hl, Listener.receive]

/-- The message of the event in delivery arrives at a listener. -/
theorem Tracked.arrive (ht : r.Tracked published log) {courier number : Nat} {m : Message μ}
    {name : String} {rest : List String} {success answered : Bool} {left : Nat}
    (hd : r.delivery = some
      ⟨.courier courier number, ⟨m, rest, some ⟨name, .sending success, left⟩⟩, answered⟩) :
    (r.ends .well).Tracked published (log ++ [.arrived number name]) := by
  obtain ⟨_, _, e, hsender, -, hnumber, hmessage⟩ := ht.books.delivery hd
  obtain ⟨rfl, rfl⟩ : courier = _ ∧ number = _ := by simpa using hsender
  obtain ⟨hnodup, htaken⟩ := ht.current _ hd
  obtain ⟨members, htaken, hnamed⟩ := htaken number rfl
  have hunserved := ht.unserved _ hd number rfl
  have hle := fun n hn => ht.take_le n hn _ hd number rfl
  simp only [Service.awaited] at hnodup hnamed hunserved
  have hends : r.ends .well = { r with
      audience := r.audience.receive name m
      delivery := some ⟨.courier courier number, ⟨m, rest, none⟩, true⟩ } := by
    rw [ends_of_some hd]
    rfl
  -- The listener is still awaited, so that what it has received came with earlier events.
  have hearlier : ∀ n ∈ arrivals name log, n < number := by
    intro n hn
    refine Nat.lt_of_le_of_ne (hle n (ht.delivered.mem_takes hn)) ?_
    rintro rfl
    exact hunserved name List.mem_cons_self hn
  have hcompetition : m.competition = e.competition := by
    obtain ⟨body, -, hbody⟩ := Option.map_eq_some_iff.1 hmessage
    exact (congrArg Message.competition hbody).symm
  have hbooks := ht.books.congr (account_ends r .well)
  rw [hends] at hbooks ⊢
  refine ⟨hbooks, ?_, ?_, ?_, ?_, ?_, ?_⟩
  · rw [Audience.names_receive]
    exact ht.names_nodup
  · refine ht.delivered.arrived rfl ?_ hearlier ⟨e, members, hnumber, ?_, hnamed _ List.mem_cons_self⟩
    · rw [message?, hnumber]
      exact hmessage
    · exact hcompetition ▸ htaken
  · intro n hn
    rw [takes_append_arrived] at hn
    exact ht.take_lt n hn
  · intro n hn d hd' k hk
    obtain rfl := Option.some.inj hd'
    obtain rfl : number = k := Option.some.inj hk
    rw [takes_append_arrived] at hn
    exact hle n hn
  · intro d hd' k hk other hother
    obtain rfl := Option.some.inj hd'
    obtain rfl : number = k := Option.some.inj hk
    -- Whoever is still awaited is somebody else.
    have hne : name ≠ other := by
      rintro rfl
      exact (List.nodup_cons.1 hnodup).1 hother
    rw [arrivals_append_of_ne log number hne]
    exact hunserved other (List.mem_cons_of_mem _ hother)
  · intro d hd'
    obtain rfl := Option.some.inj hd'
    refine ⟨(List.nodup_cons.1 hnodup).2, fun k hk => ?_⟩
    obtain rfl : number = k := Option.some.inj hk
    exact ⟨members, List.mem_append_left _ htaken,
      fun other hother => hnamed other (List.mem_cons_of_mem _ hother)⟩

/-- The first turn that waits is taken. -/
theorem Tracked.next (ht : r.Tracked published log) :
    (r.move .next).Tracked published (log ++ r.record .next) := by
  have hstay : r.move .next = r → r.record .next = [] →
      (r.move .next).Tracked published (log ++ r.record .next) := by
    intro hmove hrecord
    rw [hmove, hrecord, List.append_nil]
    exact ht
  cases hd : r.delivery with
  | some d => exact hstay (by simp [Relay.move, Relay.nextTurn?, hd]) (by simp [record, hd])
  | none =>
    cases hturns : r.turns with
    | nil =>
      exact hstay (by simp [Relay.move, Relay.nextTurn?, hd, hturns]) (by simp [record, hd, hturns])
    | cons t turns =>
      by_cases hparcel : t.parcel? = none
      · have hnext : r.nextTurn? = some (take { r with turns } t) := by
          simp [Relay.nextTurn?, hd, hturns, hparcel]
        have hmove : r.move .next = take { r with turns } t := by
          rw [Relay.move, hnext, Option.getD_some]
        have hrecord : r.record .next = [] := by
          cases t with
          | enroll ticket competition listener => simp [record, hd, hturns]
          | withdraw ticket competition listener => simp [record, hd, hturns]
          | deliver sender m => simp [Turn.parcel?] at hparcel
        rw [hmove, hrecord, List.append_nil]
        have hkept := ht.quiet (quiet_take hturns hparcel) (ht.books.nextTurn? hnext).silent
        rwa [List.append_nil] at hkept
      · cases t with
        | enroll ticket competition listener => exact absurd rfl hparcel
        | withdraw ticket competition listener => exact absurd rfl hparcel
        | deliver sender m =>
          obtain ⟨name, number, e, rfl, -⟩ : ∃ name number e, sender = .courier name number ∧ _ :=
            ht.books.carried (sender, m) (by simp [parcels, hturns, Turn.parcel?])
          cases hcalled : r.isCalled name with
          | true =>
            exact hstay (by simp [Relay.move, Relay.nextTurn?, hd, hturns, Turn.parcel?, isHalted,
              hcalled]) (by simp [record, hd, hturns, hcalled])
          | false =>
            have hrecord : r.record .next = [.taken number m.competition
                (r.audience.roster.members m.competition)] := by simp [record, hd, hturns, hcalled]
            have hmove : r.move .next =
                take { r with turns } (.deliver (.courier name number) m) := by
              simp [Relay.move, Relay.nextTurn?, hd, hturns, Turn.parcel?, isHalted, hcalled]
            rw [hrecord, hmove]
            exact ht.deliver hd hcalled hturns

theorem Tracked.ends (ht : r.Tracked published log) (ending : Ending) :
    (r.ends ending).Tracked published (log ++ r.record (.ends ending)) := by
  by_cases hrecord : r.record (.ends ending) = []
  · rw [hrecord, List.append_nil]
    have hkept := ht.quiet (ht.books.quiet_ends hrecord)
      (ht.books.congr (account_ends r ending)).silent
    rwa [List.append_nil] at hkept
  · -- Something is written down only when a send on behalf of a courier succeeds.
    cases ending with
    | badly | late => exact absurd rfl hrecord
    | well =>
      cases hd : r.delivery with
      | none => simp [record, hd] at hrecord
      | some d =>
        obtain ⟨name, number, -, hsender, -⟩ := ht.books.delivery hd
        obtain ⟨sender, ⟨m, rest, errand⟩, answered⟩ := d
        obtain rfl : sender = _ := hsender
        rcases errand with _ | ⟨listener, success | _ | _, left⟩
        · simp [record, hd] at hrecord
        · have hentry : r.record (.ends .well) = [.arrived number listener] := by simp [record, hd]
          rw [hentry]
          exact ht.arrive hd
        · simp [record, hd] at hrecord
        · simp [record, hd] at hrecord

/-- Every move keeps the record true. -/
theorem Tracked.move (ht : r.Tracked published log) (m : Move μ) :
    (r.move m).Tracked (published ++ m.published) (log ++ r.record m) := by
  -- A move that cannot be made changes nothing.
  have hgetD : ∀ o : Option (Relay μ), (∀ s, o = some s → Quiet r s) → Quiet r (o.getD r) := by
    intro o ho
    cases o with
    | none => exact .refl r
    | some s => exact ho s rfl
  have hbooks := ht.books.move m
  have hquiet : r.record m = [] → Quiet r (r.move m) →
      (r.move m).Tracked (published ++ m.published) (log ++ r.record m) := by
    intro hrecord hq
    rw [hrecord, List.append_nil]
    exact ht.quiet hq hbooks
  cases m with
  | tell order => exact hquiet rfl (quiet_act r order)
  | heed name => exact hquiet rfl (hgetD _ fun s hs => quiet_heed? hs)
  | resume stop => exact hquiet rfl (hgetD _ fun s hs => quiet_resume? hs)
  | pull name => exact hquiet rfl (hgetD _ fun s hs => quiet_pull? hs)
  | proceed => exact hquiet rfl (hgetD _ fun s hs => quiet_proceed? hs)
  | next => exact (List.append_nil published).symm ▸ ht.next
  | ends ending => exact (List.append_nil published).symm ▸ ht.ends ending
  | elapse nanos => exact hquiet rfl (quiet_elapse r nanos)

theorem Tracked.run (ht : r.Tracked published log) (moves : List (Move μ)) :
    (r.run moves).Tracked (published ++ moves.flatMap Move.published) (log ++ r.log moves) := by
  induction moves generalizing r published log with
  | nil => simpa [Relay.run, Relay.log] using ht
  | cons m moves ih =>
    rw [List.flatMap_cons, ← List.append_assoc, Relay.log, ← List.append_assoc]
    exact ih (ht.move m)

/-! ## From the start -/

/-- Listeners with different names who have not received anything. -/
structure Company (μ : Type) where
  listeners : List (Listener μ)
  names_nodup : (listeners.map (·.name)).Nodup
  fresh : ∀ l ∈ listeners, l.received = []

/-- A relay before anything has happened. -/
def opened (patience : Option Nat) (company : Company μ) : Relay μ :=
  { patience, audience := { listeners := company.listeners } }

theorem tracked_opened (patience : Option Nat) (company : Company μ) :
    (opened patience company).Tracked [] [] where
  books := books_opened patience company.listeners
  names_nodup := company.names_nodup
  delivered := {
    received := fun l hl => by
      rw [company.fresh l hl]
      rfl
    inOrder := fun _ => List.Pairwise.nil
    turnsInOrder := List.Pairwise.nil
    confined := fun before after number name h => by simp at h }
  take_lt _ hn := absurd hn List.not_mem_nil
  take_le _ hn := absurd hn List.not_mem_nil
  unserved _ hd := absurd hd (by simp [opened])
  current _ hd := absurd hd (by simp [opened])

/-- Growing numbers below a bound are a part of all numbers below it. -/
theorem sublist_range {numbers : List Nat} {bound : Nat} (hgrow : numbers.Pairwise (· < ·))
    (hbound : ∀ n ∈ numbers, n < bound) : numbers.Sublist (List.range bound) := by
  have hsub : numbers.Subperm (List.range bound) :=
    List.subperm_of_subset hgrow.nodup fun n hn => List.mem_range.2 (hbound n hn)
  exact List.sublist_of_subperm_of_pairwise hsub hgrow List.pairwise_lt_range

/-- What a listener has received are the messages of a part of the published events, in order. -/
theorem Delivered.exists_sublist (hd : r.Delivered published log) {l : Listener μ}
    (hl : l ∈ r.audience.listeners) : ∃ events : List (Event μ), events.Sublist published ∧
      l.received.map some = events.map Event.message? := by
  have hbound : ∀ n ∈ arrivals l.name log, n < published.length := by
    intro n hn
    have hmem : message? published n ∈ l.received.map some := by
      rw [hd.received l hl]
      exact List.mem_map_of_mem hn
    obtain ⟨m, -, hm⟩ := List.mem_map.1 hmem
    obtain ⟨e, he, -⟩ := Option.bind_eq_some_iff.1 hm.symm
    exact (List.getElem?_eq_some_iff.1 he).1
  have hpart := (sublist_range (hd.inOrder l.name) hbound).map fun n => published[n]?
  have hall : (List.range published.length).map (fun n => published[n]?) = published.map some := by
    apply List.ext_getElem
    · simp
    · intro n h h'
      simp
  rw [hall] at hpart
  obtain ⟨events, hevents, hsame⟩ := List.sublist_map_iff.1 hpart
  refine ⟨events, hevents, ?_⟩
  calc l.received.map some
      = ((arrivals l.name log).map fun n => published[n]?).map (·.bind Event.message?) := by
        rw [hd.received l hl, List.map_map]
        rfl
    _ = (events.map some).map (·.bind Event.message?) := by rw [hsame]
    _ = events.map Event.message? := by
        rw [List.map_map]
        rfl

/--
Whatever the users do and however the listeners behave, each listener receives the messages of a part
of the published events, in the order in which they were published and none twice, and only of events
of competitions for which the roster named it when their delivery took the turn.  This is so after
every small step, and all that can occur is made of small steps.
-/
theorem delivered_run (patience : Option Nat) (company : Company μ) :
    (∀ moves, ((opened patience company).run moves).Delivered (moves.flatMap Move.published)
      ((opened patience company).log moves)) ∧
    (∀ moves, ∀ l ∈ ((opened patience company).run moves).audience.listeners,
      ∃ events : List (Event μ), events.Sublist (moves.flatMap Move.published) ∧
        l.received.map some = events.map Event.message?) ∧
    ∀ occurrences, (opened patience company).Leads (occurrences.flatMap Occurrence.published)
      ((opened patience company).undergoAll occurrences) := by
  have hrun : ∀ moves, ((opened patience company).run moves).Delivered
      (moves.flatMap Move.published) ((opened patience company).log moves) := fun moves =>
    ((tracked_opened patience company).run moves).delivered
  exact ⟨hrun, fun moves l hl => (hrun moves).exists_sublist hl, leads_undergoAll _⟩

end PuzzleContest.Relay
