import PuzzleContest.Proofs.Attentive
import PuzzleContest.Proofs.Season
import PuzzleContest.Proofs.Unsigned

/-!
# Spectators

A spectator is not asked for a token: whoever finds the way to the news of a competition subscribes to
it, and from then on gets all its news, and none of other competitions, until it goes, whatever else
happens to the site.

Main definitions:

- `Site.Attentive`: a site whose spectators take everything at once and whose couriers are idle.
- `Site.Listens`: a spectator listens to one competition.
- `Site.Occasion`, `Site.undergoAll`: what may happen to a site.

Main results:

- `Site.accepted_iff`: who is accepted.
- `Site.Attentive.mem_received_iff`: a spectator gets the news of its competition.
- `Site.Attentive.undergoAll`: it goes on to listen, whatever happens.
- `Site.news_without_token`: who learns what without a token.
-/

namespace PuzzleContest.Site

variable {s t : Site} {name target competition : String}

/-! ## Spectators who come and go -/

/-- A spectator who finds the way to the news of a competition subscribes to it. -/
theorem connect_of_found (s : Site) (name : String) {x : Competition}
    (hpath : s.front.news? target = some competition)
    (hfound : (Contest.findCompetition competition s.contest).1 = .ok x) :
    s.connect name target = (.accepted, { s with
      contest := (Contest.findCompetition competition s.contest).2
      relay := s.relay.subscribe competition { name } }) := by
  have hpair : Contest.findCompetition competition s.contest =
      (.ok x, (Contest.findCompetition competition s.contest).2) := Prod.ext hfound rfl
  unfold connect
  simp only [hpath]
  rw [hpair]
  rfl

/-- Whoever finds no such way is not accepted, and nothing becomes of the spectators. -/
theorem connect_cases (s : Site) (name target : String) :
    (∃ competition x, s.front.news? target = some competition ∧
      (Contest.findCompetition competition s.contest).1 = .ok x) ∨
    (s.connect name target).1 ≠ .accepted ∧ (s.connect name target).2.relay = s.relay := by
  unfold connect
  split
  · exact .inr ⟨by simp, rfl⟩
  · rename_i competition hpath
    split
    · rename_i x contest hfound
      exact .inl ⟨competition, x, hpath, by rw [hfound]⟩
    · refine .inr ⟨?_, rfl⟩
      simp only
      split <;> simp
    · exact .inr ⟨by simp, rfl⟩

theorem accepted_iff (s : Site) (name target : String) :
    (s.connect name target).1 = .accepted ↔
      ∃ competition x, s.front.news? target = some competition ∧
        (Contest.findCompetition competition s.contest).1 = .ok x := by
  constructor
  · exact fun haccepted => (connect_cases s name target).resolve_right fun h => h.1 haccepted
  · rintro ⟨competition, x, hpath, hfound⟩
    rw [connect_of_found s name hpath hfound]

theorem disconnect_eq (s : Site) (name : String) :
    s.disconnect name = { s with relay := s.relay.leave name } := rfl

/-- To ask to listen leaves the store of tries and the announcements as they are. -/
theorem contest_connect (s : Site) (name target : String) :
    (s.connect name target).2.contest.store = s.contest.store ∧
      (s.connect name target).2.contest.outbox = s.contest.outbox := by
  have hread : ∀ competition, ∃ schedule,
      (Contest.findCompetition competition s.contest).2 = { s.contest with schedule } :=
    fun competition => Contest.isRead_findCompetition competition s.contest
  unfold connect
  split
  · exact ⟨rfl, rfl⟩
  · rename_i competition _
    obtain ⟨schedule, hschedule⟩ := hread competition
    split
    all_goals
      rename_i hfound
      rw [hfound] at hschedule
      obtain rfl := hschedule
      exact ⟨rfl, rfl⟩

/-! ## What goes out to spectators -/

/-- All spectators take their messages at once, a courier has nothing to do, and what has been received
has been collected. -/
structure Attentive (s : Site) : Prop where
  relay : s.relay.Attentive
  collected : ∀ l ∈ s.relay.audience.listeners, l.received = []

/-- A spectator listens to one competition. -/
def Listens (s : Site) (name competition : String) : Prop :=
  ∀ competition', name ∈ s.relay.audience.roster.members competition' ↔ competition' = competition

/-- An announcement as a message. -/
def messageOf (x : Announcement Nat) : Relay.Message (Announcement Nat) := ⟨x.competition, x⟩

/-- The relay when the announcements have reached the spectators of their competitions. -/
def informed (s : Site) : Relay (Announcement Nat) :=
  { s.relay with
    audience := s.relay.audience.hearAll (s.contest.outbox.map messageOf)
    pulled := s.relay.pulled + (s.contest.outbox.map messageOf).length
    completed := s.relay.completed + (s.contest.outbox.map messageOf).length }

theorem Attentive.flush_eq (hs : s.Attentive) : s.flush =
    (⟨s.contest.outbox, s.contest.requests, s.informed.received⟩,
      { s with
        contest := { s.contest with outbox := [], requests := [] }
        relay := s.informed.forgetReceived }) := by
  have hpublished : s.contest.outbox.foldl
      (fun relay x => relay.obey (.publish ⟨x.competition, some x⟩)) s.relay = s.informed := by
    rw [informed, ← hs.relay.publishAll, List.foldl_map]
    rfl
  rw [flush, hpublished]

/-- A spectator who listens to a competition is there. -/
theorem Attentive.mem_names (hs : s.Attentive) (hlistens : s.Listens name competition) :
    name ∈ s.relay.audience.names :=
  (List.mem_filter.1 (hs.relay.proper.mem_present_iff.2 ((hlistens competition).2 rfl))).1

/-- A spectator who listens to one competition gets its news, in order, and no other ones. -/
theorem Attentive.mem_received_iff (hs : s.Attentive) (hlistens : s.Listens name competition)
    (news : List (Announcement Nat)) : (name, news) ∈ s.flush.1.received ↔
      news = s.contest.outbox.filter (·.competition = competition) := by
  have hheard : ∀ l ∈ s.relay.audience.listeners, l.name = name →
      ((l.received ++ (s.contest.outbox.map messageOf).filter fun m =>
        l.name ∈ s.relay.audience.roster.members m.competition).map (·.body)) =
        s.contest.outbox.filter (·.competition = competition) := by
    intro l hl hname
    simp only [hs.collected l hl, hname, hlistens _, List.nil_append, List.filter_map, List.map_map]
    exact List.map_id' _
  have hreceived : s.flush.1.received = s.informed.received := by rw [hs.flush_eq]
  rw [hreceived]
  constructor
  · intro hmem
    obtain ⟨l', hl', hpair⟩ := List.mem_map.1 hmem
    obtain ⟨l, hl, rfl⟩ := List.mem_map.1 hl'
    obtain ⟨hname, hnews⟩ := Prod.mk.inj hpair
    exact hnews.symm.trans (hheard l hl hname)
  · rintro rfl
    obtain ⟨l, hl, rfl⟩ := List.mem_map.1 (hs.mem_names hlistens)
    rw [← hheard l hl rfl]
    exact List.mem_map_of_mem (f := fun l : Relay.Listener (Announcement Nat) =>
      (l.name, l.received.map (·.body))) (List.mem_map_of_mem hl)

theorem Attentive.flush (hs : s.Attentive) : s.flush.2.Attentive := by
  rw [hs.flush_eq]
  refine ⟨(hs.relay.hearAll _ _ _).forgetReceived, fun l hl => ?_⟩
  obtain ⟨l', -, rfl⟩ := List.mem_map.1 hl
  rfl

theorem Attentive.listens_flush_iff (hs : s.Attentive) :
    s.flush.2.Listens name competition ↔ s.Listens name competition := by
  rw [hs.flush_eq]
  exact Iff.rfl

/-! ## A spectator comes, and another goes -/

theorem Attentive.connect (hs : s.Attentive) (hfresh : name ∉ s.relay.audience.names)
    (target : String) : (s.connect name target).2.Attentive := by
  rcases connect_cases s name target with ⟨c, x, hpath, hfound⟩ | ⟨-, heq⟩
  · rw [connect_of_found s name hpath hfound]
    refine ⟨hs.relay.subscribe c hfresh rfl, fun l hl => ?_⟩
    rw [hs.relay.subscribe_eq c hfresh rfl] at hl
    rcases List.mem_append.1 hl with hold | hnew
    · exact hs.collected l hold
    · rw [List.mem_singleton.1 hnew]
  · exact ⟨heq ▸ hs.relay, heq ▸ hs.collected⟩

theorem Attentive.disconnect (hs : s.Attentive) (name : String) : (s.disconnect name).Attentive := by
  rw [disconnect_eq]
  refine ⟨hs.relay.leave name, fun l hl => ?_⟩
  rw [hs.relay.leave_eq name] at hl
  exact hs.collected l (List.mem_filter.1 hl).1

/-- Whoever is accepted listens to the competition that the target leads to, and to no other one. -/
theorem Attentive.listens_connect (hs : s.Attentive) (hfresh : name ∉ s.relay.audience.names)
    (hpath : s.front.news? target = some competition)
    (haccepted : (s.connect name target).1 = .accepted) :
    (s.connect name target).2.Listens name competition := by
  obtain ⟨c, x, hc, hfound⟩ := (accepted_iff s name target).1 haccepted
  obtain rfl := Option.some.inj (hpath.symm.trans hc)
  have hnew : ∀ c', name ∉ s.relay.audience.roster.members c' := by
    intro c' hmem
    have hpresent := hs.relay.proper.mem_present_iff.2 hmem
    exact hfresh (List.mem_filter.1 hpresent).1
  intro c'
  rw [connect_of_found s name hpath hfound, hs.relay.subscribe_eq competition hfresh rfl,
    Relay.Roster.members_add]
  split
  · rename_i hsame
    simp [hsame, Relay.Roster.addName, hnew]
  · rename_i hne
    exact ⟨fun hmem => absurd hmem (hnew c'), fun h => absurd h hne⟩

/-- Others who come and go make no difference. -/
theorem Attentive.listens_connect_iff (hs : s.Attentive) {other : String}
    (hfresh : other ∉ s.relay.audience.names) (hne : other ≠ name) (target : String) :
    (s.connect other target).2.Listens name competition ↔ s.Listens name competition := by
  rcases connect_cases s other target with ⟨c, x, hpath, hfound⟩ | ⟨-, heq⟩
  · have hmembers : ∀ c', name ∈ (s.connect other target).2.relay.audience.roster.members c' ↔
        name ∈ s.relay.audience.roster.members c' := by
      intro c'
      rw [connect_of_found s other hpath hfound, hs.relay.subscribe_eq c hfresh rfl,
        Relay.Roster.members_add]
      split
      · rename_i hsame
        rw [hsame, Relay.Roster.addName]
        split
        · exact Iff.rfl
        · simp [hne.symm]
      · exact Iff.rfl
    exact forall_congr' fun c' => by rw [hmembers c']
  · rw [Listens, Listens, heq]

theorem Attentive.listens_disconnect_iff (hs : s.Attentive) {other : String} (hne : other ≠ name) :
    (s.disconnect other).Listens name competition ↔ s.Listens name competition := by
  have hmembers : ∀ c', name ∈ (s.disconnect other).relay.audience.roster.members c' ↔
      name ∈ s.relay.audience.roster.members c' := by
    intro c'
    rw [disconnect_eq, hs.relay.leave_eq other]
    exact Relay.Roster.mem_members_discardAll_iff hs.relay.proper.competitions_nodup hne.symm _ c'
  exact forall_congr' fun c' => by rw [hmembers c']

/-! ## Whatever happens -/

/-- What may happen to a site. -/
inductive Occasion where
  | request (r : Request)
  | connect (name target : String)
  | disconnect (name : String)
  | flush
  /-- The contest goes on otherwise, in whatever way. -/
  | goOn (change : Contest → Contest)

/-- Something happens to a site. -/
def undergo (s : Site) : Occasion → Site
  | .request r => (s.handle r).2
  | .connect name target => (s.connect name target).2
  | .disconnect name => s.disconnect name
  | .flush => s.flush.2
  | .goOn change => { s with contest := change s.contest }

/-- One thing after another happens to a site. -/
def undergoAll (s : Site) (occasions : List Occasion) : Site := occasions.foldl undergo s

/-- The name of a spectator who comes. -/
def Occasion.newcomer? : Occasion → Option String
  | .connect name _ => some name
  | _ => none

/-- Those who come have names of their own. -/
def Apart (s : Site) (occasions : List Occasion) : Prop :=
  (s.relay.audience.names ++ occasions.filterMap (·.newcomer?)).Nodup

theorem Attentive.undergo (hs : s.Attentive) {o : Occasion}
    (hfresh : ∀ name ∈ o.newcomer?, name ∉ s.relay.audience.names) : (s.undergo o).Attentive := by
  cases o with
  | request r => exact ⟨(relay_handle s r).symm ▸ hs.relay, (relay_handle s r).symm ▸ hs.collected⟩
  | connect name target => exact hs.connect (hfresh name rfl) target
  | disconnect name => exact hs.disconnect name
  | flush => exact hs.flush
  | goOn change => exact ⟨hs.relay, hs.collected⟩

theorem Attentive.listens_undergo (hs : s.Attentive) (hlistens : s.Listens name competition)
    {o : Occasion} (hfresh : ∀ other ∈ o.newcomer?, other ∉ s.relay.audience.names)
    (hstays : ∀ other, o = .disconnect other → other ≠ name) :
    (s.undergo o).Listens name competition := by
  cases o with
  | request r =>
    change ∀ c', name ∈ (s.handle r).2.relay.audience.roster.members c' ↔ _
    rw [relay_handle]
    exact hlistens
  | connect other target =>
    have hnew := hfresh other rfl
    have hne : other ≠ name := fun h => hnew (h ▸ hs.mem_names hlistens)
    exact (hs.listens_connect_iff hnew hne target).2 hlistens
  | disconnect other => exact (hs.listens_disconnect_iff (hstays other rfl)).2 hlistens
  | flush => exact hs.listens_flush_iff.2 hlistens
  | goOn change => exact hlistens

/-- Nobody is there who neither was there nor came. -/
theorem Attentive.names_undergo_sublist (hs : s.Attentive) {o : Occasion}
    (hfresh : ∀ name ∈ o.newcomer?, name ∉ s.relay.audience.names) :
    (s.undergo o).relay.audience.names.Sublist
      (s.relay.audience.names ++ o.newcomer?.toList) := by
  have hkept : ∀ {names : List String}, names = s.relay.audience.names →
      names.Sublist (s.relay.audience.names ++ o.newcomer?.toList) := by
    rintro names rfl
    exact List.sublist_append_left _ _
  cases o with
  | request r =>
    refine hkept ?_
    change (s.handle r).2.relay.audience.names = s.relay.audience.names
    rw [relay_handle]
  | connect name target =>
    change (s.connect name target).2.relay.audience.names.Sublist (s.relay.audience.names ++ [name])
    rcases connect_cases s name target with ⟨c, x, hpath, hfound⟩ | ⟨-, heq⟩
    · rw [connect_of_found s name hpath hfound, hs.relay.subscribe_eq c (hfresh name rfl) rfl]
      simp [Relay.Audience.names]
    · rw [heq]
      exact List.sublist_append_left _ _
  | disconnect name =>
    change (s.disconnect name).relay.audience.names.Sublist (s.relay.audience.names ++ [])
    rw [disconnect_eq, hs.relay.leave_eq name, List.append_nil]
    exact List.filter_sublist.map _
  | flush =>
    refine hkept ?_
    change s.flush.2.relay.audience.names = s.relay.audience.names
    rw [hs.flush_eq]
    simp [Relay.Audience.names, Relay.forgetReceived, informed, Relay.Audience.hearAll,
      Function.comp_def]
  | goOn change => exact hkept rfl

theorem apart_cons_iff {o : Occasion} {occasions : List Occasion} : s.Apart (o :: occasions) ↔
    ((s.relay.audience.names ++ o.newcomer?.toList) ++
      occasions.filterMap (·.newcomer?)).Nodup := by
  rw [Apart, List.append_assoc]
  cases o <;> rfl

theorem Apart.not_mem {o : Occasion} {occasions : List Occasion}
    (hapart : s.Apart (o :: occasions)) : ∀ name ∈ o.newcomer?, name ∉ s.relay.audience.names := by
  intro name hname hold
  have hnodup := (List.nodup_append.1 (apart_cons_iff.1 hapart)).1
  exact (List.nodup_append.1 hnodup).2.2 name hold name (Option.mem_toList.2 hname) rfl

theorem Apart.undergo (hs : s.Attentive) {o : Occasion} {occasions : List Occasion}
    (hapart : s.Apart (o :: occasions)) : (s.undergo o).Apart occasions :=
  ((hs.names_undergo_sublist hapart.not_mem).append_right _).nodup (apart_cons_iff.1 hapart)

/-- Whatever happens to a site, it stays attentive, and a spectator who listens to one competition goes
on to do so until it goes. -/
theorem Attentive.undergoAll (hs : s.Attentive) {occasions : List Occasion}
    (hapart : s.Apart occasions) (hlistens : s.Listens name competition)
    (hstays : .disconnect name ∉ occasions) :
    (s.undergoAll occasions).Attentive ∧ (s.undergoAll occasions).Listens name competition := by
  induction occasions generalizing s with
  | nil => exact ⟨hs, hlistens⟩
  | cons o occasions ih =>
    have hmine : ∀ other, o = .disconnect other → other ≠ name := by
      rintro other rfl rfl
      exact hstays List.mem_cons_self
    exact ih (hs.undergo hapart.not_mem) (hapart.undergo hs)
      (hs.listens_undergo hlistens hapart.not_mem hmine)
      (fun hlater => hstays (List.mem_cons_of_mem _ hlater))

/-! ## The start -/

/-- A relay that has just been started. -/
def fresh (patience : Option Nat) : Relay (Announcement Nat) :=
  { patience, couriers := [{ name := 0 }], known := some 0, hired := 1 }

theorem attentive_fresh {patience : Option Nat} (hpatience : patience ≠ none) :
    (fresh patience).Attentive :=
  ⟨hpatience, ⟨List.nodup_nil, List.nodup_nil, fun _ he => absurd he List.not_mem_nil,
    fun _ he => absurd he List.not_mem_nil⟩, fun _ hl => absurd hl List.not_mem_nil,
    ⟨by simp [fresh], fun c hc => by rw [List.mem_singleton.1 hc]⟩, rfl, rfl, rfl, rfl, rfl⟩

/-- A site without spectators is attentive. -/
theorem attentive_of_nobody {patience : Option Nat} (hpatience : patience ≠ none)
    (hrelay : s.relay = fresh patience) : s.Attentive := by
  constructor
  · rw [hrelay]
    exact attentive_fresh hpatience
  · rw [hrelay]
    exact fun _ hl => absurd hl List.not_mem_nil

/-- So is one at its start, if spectators have any time to take a message. -/
theorem attentive_start {settings : Settings}
    (hpatience : Settings.patienceOf settings.sendTimeout ≠ none) (plan : Cooldown.Plan)
    (directory : Directory) (store : Store) (now : Moment)
    (catalog : Catalog.Request → Catalog.Reply) (room : Nat) :
    (start settings plan directory store now catalog room).Attentive := by
  have hfresh : (fresh (Settings.patienceOf settings.sendTimeout)).Attentive :=
    attentive_fresh hpatience
  exact attentive_of_nobody hpatience hfresh.settle_eq

/-! ## Who learns what -/

/-- Who says nothing of who they are.  What an unsigned request is told depends neither on the contest
nor on the spectators, and is no success, except that the site is in good health; and it changes nothing.
A spectator need not be signed at all: to be accepted it is enough to find the way to the news of a
competition that there is.  That changes neither the tries nor the announcements.  From then on, whatever
happens, the spectator listens to that competition and gets all its announcements, in order, and no other
ones, until it goes. -/
theorem news_without_token (hs : s.Attentive) :
    (∀ r, s.Unsigned r → ∃ reply : Reply, (reply.status = 200 → reply = .healthy) ∧
      ∀ t, AskAlike s t → t.handle r = (reply, t)) ∧
    ∀ name target,
      ((s.connect name target).1 = .accepted ↔
        ∃ competition x, s.front.news? target = some competition ∧
          (Contest.findCompetition competition s.contest).1 = .ok x) ∧
      ((s.connect name target).2.contest.store = s.contest.store ∧
        (s.connect name target).2.contest.outbox = s.contest.outbox) ∧
      ((s.connect name target).1 ≠ .accepted → (s.connect name target).2.relay = s.relay) ∧
      ∀ competition, s.front.news? target = some competition →
        (s.connect name target).1 = .accepted →
        ∀ occasions, s.Apart (.connect name target :: occasions) → .disconnect name ∉ occasions →
          let later := (s.connect name target).2.undergoAll occasions
          later.Listens name competition ∧
            ∀ news, (name, news) ∈ later.flush.1.received ↔
              news = later.contest.outbox.filter (·.competition = competition) := by
  refine ⟨fun r hr => rebuffs_handle hr, fun name target =>
    ⟨accepted_iff s name target, contest_connect s name target, fun hnot => ?_, ?_⟩⟩
  · exact ((connect_cases s name target).resolve_left fun h =>
      hnot ((accepted_iff s name target).2 h)).2
  · intro competition hpath haccepted occasions hapart hstays
    have hfresh : name ∉ s.relay.audience.names := hapart.not_mem name rfl
    obtain ⟨hlater, hlistens⟩ := (hs.connect hfresh target).undergoAll
      (hapart.undergo hs) (hs.listens_connect hfresh hpath haccepted) hstays
    exact ⟨hlistens, hlater.mem_received_iff hlistens⟩

/-- A site without spectators. -/
def sampleSite : Site where
  contest := Contest.sample
  relay := fresh (some 2000000000)
  front := .standard 900

theorem attentive_sampleSite : sampleSite.Attentive := attentive_of_nobody (by simp) rfl

/-- The way to the news of its only competition. -/
def sampleTarget : String := "/competitions/cup/ws"

theorem connect_sampleSite (name : String) : sampleSite.connect name sampleTarget =
    (.accepted, { sampleSite with relay := sampleSite.relay.subscribe "cup" { name } }) := by
  have hpath : sampleSite.front.news? sampleTarget = some "cup" := by decide
  exact connect_of_found sampleSite name hpath rfl

/-- A request without a token. -/
def sampleRequest : Request where
  method := "GET"
  target := "/competitions/cup/tries"

theorem unsigned_sampleRequest : sampleSite.Unsigned sampleRequest := by
  intro player hplayer
  have hnone : sampleSite.identify sampleRequest = .ok none := rfl
  rw [hnone] at hplayer
  simp at hplayer

/-- Another spectator comes after the first, and the announcements go out. -/
def sampleOccasions : List Occasion := [.connect "other" sampleTarget, .flush]

theorem news_without_token_sample : sampleSite.Attentive ∧ sampleSite.Unsigned sampleRequest ∧
    (∃ reply : Reply, (reply.status = 200 → reply = .healthy) ∧
      sampleSite.handle sampleRequest = (reply, sampleSite)) ∧
    sampleSite.front.news? sampleTarget = some "cup" ∧
    (sampleSite.connect "guest" sampleTarget).1 = .accepted ∧
    sampleSite.Apart (.connect "guest" sampleTarget :: sampleOccasions) ∧
    ((sampleSite.connect "guest" sampleTarget).2.undergoAll sampleOccasions).Listens "guest" "cup" := by
  obtain ⟨hrequests, hspectators⟩ := news_without_token attentive_sampleSite
  obtain ⟨reply, hstatus, hreply⟩ := hrequests sampleRequest unsigned_sampleRequest
  obtain ⟨-, -, -, hlistens⟩ := hspectators "guest" sampleTarget
  have hpath : sampleSite.front.news? sampleTarget = some "cup" := by decide
  have haccepted : (sampleSite.connect "guest" sampleTarget).1 = .accepted := by
    rw [connect_sampleSite]
  have hapart : sampleSite.Apart (.connect "guest" sampleTarget :: sampleOccasions) := by
    unfold Apart
    decide
  have hstays : .disconnect "guest" ∉ sampleOccasions := by simp [sampleOccasions]
  exact ⟨attentive_sampleSite, unsigned_sampleRequest,
    ⟨reply, hstatus, hreply sampleSite ⟨rfl, rfl, rfl, rfl⟩⟩, hpath, haccepted, hapart,
    (hlistens "cup" hpath haccepted sampleOccasions hapart hstays).1⟩

/-- To listen without a token changes who is on the roster. -/
theorem not_forall_roster_connect : ¬ ∀ (s : Site) (name target : String),
    (s.connect name target).2.relay.audience.roster = s.relay.audience.roster := by
  intro hall
  have hsame := hall sampleSite "guest" sampleTarget
  rw [connect_sampleSite, attentive_sampleSite.relay.subscribe_eq "cup" (by decide) rfl] at hsame
  exact absurd hsame (by decide)

end PuzzleContest.Site
