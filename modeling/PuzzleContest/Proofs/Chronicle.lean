import PuzzleContest.Proofs.Replay

/-!
# The announcements as a chronicle of the tries

In every season the announcements of a try tell its whole story: it was made, and then it was changed
once for each of its attempts.  Together with what was listed of a competition at any time they give
what is listed of it later.  The storage forgets how far clocks are from universal time, so that a
listing agrees with the announcements when the clock shows universal time.

Main results:

- `Contest.Tale`: the announcements of one try, from its making on.
- `Contest.Told.after`: events go on with the tale of each try.
- `Contest.attemptsOf_season`: the attempts of a try are the submissions recorded on its key.
- `Contest.chronicle_season`: the announcements of a season are a chronicle.
-/

namespace PuzzleContest

/-! ## Universal time -/

/-- A clock that shows universal time and says so. -/
def Moment.IsUtc (m : Moment) : Prop := m.offset = some 0

/-- A moment as the storage gives it back: without its distance from universal time. -/
def Moment.bare (m : Moment) : Moment := { m with offset := none }

namespace Try

variable {ι : Type} {t u : Try ι}

/-- All moments of a try are in universal time. -/
structure IsUtc (t : Try ι) : Prop where
  start : t.start.IsUtc
  finish : ∀ m, t.finish = some m → m.IsUtc
  lastMove : ∀ m, t.lastMove = some m → m.IsUtc

/-- A try with its moments written differently. -/
def mapMoments (f : Moment → Moment) (t : Try ι) : Try ι :=
  { t with start := f t.start, finish := t.finish.map f, lastMove := t.lastMove.map f }

theorem mapMoments_of_isUtc {f : Moment → Moment} (hf : ∀ m : Moment, m.IsUtc → f m = m)
    (h : t.IsUtc) : t.mapMoments f = t := by
  have hmap : ∀ o : Option Moment, (∀ m, o = some m → m.IsUtc) → o.map f = o := by
    intro o ho
    cases o with
    | none => rfl
    | some m => exact congrArg some (hf m (ho m rfl))
  unfold mapMoments
  rw [hf t.start h.start, hmap t.finish h.finish, hmap t.lastMove h.lastMove]

theorem Answered.isUtc {now : Moment} {answer : String} {correct : Bool}
    (h : t.Answered u now answer correct) (ht : t.IsUtc) (hnow : now.IsUtc) : u.IsUtc := by
  have hsome : ∀ m, some now = some m → m.IsUtc := by
    intro m hm
    rw [← Option.some.inj hm]
    exact hnow
  constructor
  · rw [h.start_eq]
    exact ht.start
  · rw [h.finish_eq]
    cases correct with
    | true => exact hsome
    | false => exact ht.finish
  · rw [h.lastMove_eq]
    exact hsome

end Try

/-- A snapshot as it is announced, with its moments in universal time. -/
def Snapshot.sent (s : Snapshot Nat) : Snapshot Nat :=
  { s with entry := s.entry.mapMoments Moment.inUtc }

/-- A snapshot as it is listed: read back from the storage, with its moments in universal time. -/
def Snapshot.listed (s : Snapshot Nat) : Snapshot Nat :=
  { s with entry := (s.entry.mapMoments Moment.bare).mapMoments Moment.inUtc }

/-- An announcement as it is sent. -/
def Announcement.sent (a : Announcement Nat) : Announcement Nat :=
  { a with snapshot := a.snapshot.sent }

theorem Snapshot.sent_of_isUtc {s : Snapshot Nat} (h : s.entry.IsUtc) : s.sent = s := by
  unfold sent
  rw [Try.mapMoments_of_isUtc (fun m hm => Moment.inUtc_of_offset hm) h]

theorem Snapshot.listed_of_isUtc {s : Snapshot Nat} (h : s.entry.IsUtc) : s.listed = s := by
  have htwice : (s.entry.mapMoments Moment.bare).mapMoments Moment.inUtc =
      s.entry.mapMoments (Moment.inUtc ∘ Moment.bare) := by
    simp [Try.mapMoments]
  unfold listed
  rw [htwice, Try.mapMoments_of_isUtc _ h]
  intro m hm
  cases m
  simp only [Moment.IsUtc] at hm
  simp [Moment.inUtc, Moment.bare, hm]

namespace Store

variable {s s' : Store} {key : Try.Key} {deal : Deal} {tidings : List Tiding}

theorem forall_mem_tell {P : Try Nat → Prop} {tries : List (Try Nat)} (htries : ∀ t ∈ tries, P t)
    (htidings : ∀ n ∈ tidings, P n.1) : ∀ t ∈ tidings.foldl tell tries, P t := by
  induction tidings generalizing tries with
  | nil => exact htries
  | cons n rest ih =>
    have hn := htidings n List.mem_cons_self
    refine ih ?_ fun m hm => htidings m (List.mem_cons_of_mem n hm)
    intro t ht
    unfold tell at ht
    cases hnews : n.2 with
    | made =>
      rw [hnews] at ht
      rcases List.mem_append.1 ht with ht | ht
      · exact htries t ht
      · rw [List.mem_singleton.1 ht]
        exact hn
    | changed =>
      rw [hnews] at ht
      rcases List.mem_map.1 ht with ⟨u, hu, rfl⟩
      by_cases hid : u.id = n.1.id
      · rw [if_pos hid]
        exact hn
      · rw [if_neg hid]
        exact htries u hu

/-- Where a deal takes its time from universal time, so do the tries that it makes and changes. -/
theorem Change.isUtc (h : s.Change key deal s' tidings) (hs : ∀ t ∈ s.tries, t.IsUtc)
    (hdeal : deal.moment.IsUtc) : ∀ n ∈ tidings, n.1.IsUtc := by
  have hfresh : ∀ (id : Nat) (k : Try.Key) (level : String) (start : Moment), start.IsUtc →
      (fresh id k level start).IsUtc := by
    intro id k level start hstart
    exact ⟨hstart, fun m hm => absurd hm (by simp [fresh]), fun m hm => absurd hm (by simp [fresh])⟩
  intro n hn
  cases h with
  | opened hstep hindex hadd =>
    rw [List.mem_singleton.1 hn, (add?_eq_some_iff.1 hadd).2.1]
    exact hfresh _ _ _ _ hdeal
  | counted hrow hopen hanswer hlast =>
    rw [List.mem_singleton.1 hn]
    exact (Try.answered_of_eq_some hanswer).isUtc (hs _ (mem_of_find? hrow)) hdeal
  | solved hstep hrow hopen hanswer hadd =>
    rcases List.mem_cons.1 hn with rfl | hn
    · exact (Try.answered_of_eq_some hanswer).isUtc (hs _ (mem_of_find? hrow)) hdeal
    · rw [List.mem_singleton.1 hn, (add?_eq_some_iff.1 hadd).2.1]
      exact hfresh _ _ _ _ hdeal

end Store

namespace Contest

variable {c c' : Contest}

/-! ## The tale of a try -/

/-- The story of a try so far: it was made without attempts and without an end, and then changed once
for each attempt. -/
def Tale (row : Try Nat) (story : List (Announcement Nat)) : Prop :=
  ∃ first later, story = first :: later ∧ first.news = .made ∧
    first.snapshot.entry.attempts = 0 ∧ first.snapshot.entry.finish = none ∧
    later.map (fun a => (a.news, a.snapshot.entry.attempts)) =
      (List.range later.length).map (fun n : Nat => (News.changed, (n : Int) + 1)) ∧
    row.attempts = later.length

theorem tale_made (id : Nat) (key : Try.Key) (level : String) (start : Moment) (p : Player) :
    Tale (Store.fresh id key level start)
      [Store.Tiding.announcement p (Store.fresh id key level start, .made)] :=
  ⟨_, [], rfl, rfl, rfl, rfl, rfl, rfl⟩

/-- One more attempt is one more announcement. -/
theorem Tale.changed {row u : Try Nat} {story : List (Announcement Nat)} (h : Tale row story)
    (hattempts : u.attempts = row.attempts + 1) (p : Player) :
    Tale u (story ++ [Store.Tiding.announcement p (u, .changed)]) := by
  rcases h with ⟨first, later, rfl, hmade, hzero, hopen, hlater, hrow⟩
  refine ⟨first, later ++ [Store.Tiding.announcement p (u, .changed)], rfl, hmade, hzero, hopen,
    ?_, ?_⟩
  · rw [List.map_append, hlater, List.length_append, List.length_singleton, List.range_succ,
      List.map_append]
    simp [Store.Tiding.announcement, hattempts, hrow]
  · rw [hattempts, hrow, List.length_append, List.length_singleton]
    omega

/-- The announcements of the try of a key. -/
def story (c : Contest) (key : Try.Key) : List (Announcement Nat) :=
  c.outbox.filter fun a => a.snapshot.entry.key = key

/-- Each try has its tale, and nothing else has been announced. -/
structure Told (c : Contest) : Prop where
  store : c.store.Sound
  cascaded : c.store.Cascaded
  tale : ∀ key row, c.store.find? key = some row → Tale row (c.story key)
  known : ∀ a ∈ c.outbox, ∃ row, c.store.find? a.snapshot.entry.key = some row ∧
    row.id = a.snapshot.entry.id

theorem told_bare (c : Contest) : c.bare.Told where
  store := Store.sound_empty
  cascaded := Store.cascaded_empty
  tale key row h := absurd h (by simp [bare, Store.find?])
  known a ha := absurd ha (by simp [bare])

theorem Told.story_eq_nil (h : c.Told) {key : Try.Key} (hnone : c.store.find? key = none) :
    c.story key = [] := by
  unfold story
  rw [List.filter_eq_nil_iff]
  intro a ha hkey
  rcases h.known a ha with ⟨row, hrow, -⟩
  rw [of_decide_eq_true hkey, hnone] at hrow
  exact absurd hrow (by simp)

theorem story_append {tidings : List Store.Tiding} {p : Player}
    (h : c'.outbox = c.outbox ++ tidings.map (·.announcement p)) (key : Try.Key) :
    c'.story key = c.story key ++ (Store.tidingsOf key tidings).map (·.announcement p) := by
  unfold story Store.tidingsOf
  rw [h, List.filter_append, List.filter_map]
  rfl

/-- A call goes on with the tale of each try. -/
theorem Told.becomes {what : Option (Try.Key × Deal)} (h : c.Told) (hbecomes : c.Becomes what c') :
    c'.Told := by
  have hstore := hbecomes.sound h.store
  have hcascaded := hbecomes.cascaded h.store h.cascaded
  cases hbecomes with
  | same hagrees =>
    refine ⟨hstore, hcascaded, ?_, ?_⟩
    · intro key row hrow
      unfold story
      rw [hagrees.outbox_eq]
      exact h.tale key row (hagrees.store_eq ▸ hrow)
    · rw [hagrees.outbox_eq, hagrees.store_eq]
      exact h.known
  | @changed _ key deal tidings p hdirectory hplan hnow hmoment hplayer hchange houtbox =>
    refine ⟨hstore, hcascaded, ?_, ?_⟩
    · intro k row hrow
      rw [story_append houtbox]
      cases hchange.fate h.store k with
      | untouched hfind htold hdeal =>
        rw [htold, List.map_nil, List.append_nil]
        exact h.tale k row (hfind ▸ hrow)
      | made hnone hfresh hfind htold hdeal =>
        rw [hfind, Option.some.injEq] at hrow
        rw [htold, h.story_eq_nil hnone, ← hrow, hfresh]
        exact tale_made ..
      | answered hkey hdeal hold hopen hanswer hfind htold =>
        rw [hfind, Option.some.injEq] at hrow
        rw [htold, ← hrow]
        exact (h.tale k _ hold).changed (Try.answered_of_eq_some hanswer).attempts_eq p
    · intro a ha
      rw [houtbox] at ha
      rcases List.mem_append.1 ha with ha | ha
      · rcases h.known a ha with ⟨row, hrow, hid⟩
        rcases hchange.id_kept h.store hrow with ⟨row', hrow', hid'⟩
        exact ⟨row', hrow', hid'.trans hid⟩
      · rcases List.mem_map.1 ha with ⟨n, hn, rfl⟩
        exact ⟨n.1, hchange.find?_of_mem h.store hn, rfl⟩

theorem Told.after (h : c.Told) (e : Event) : (c.after e).Told := by
  rcases after_cases h.store h.cascaded e with ⟨x, rfl⟩ | ⟨what, hbecomes, -⟩
  · exact ⟨h.store, h.cascaded, h.tale, h.known⟩
  · exact h.becomes hbecomes

theorem Told.season (h : c.Told) (events : List Event) : (c.season events).Told := by
  induction events generalizing c with
  | nil => exact h
  | cons e rest ih => exact ih (h.after e)

/-- Tries are told apart by their numbers as well as by their keys. -/
theorem Told.filter_id (h : c.Told) {row : Try Nat} (hrow : row ∈ c.store.tries) :
    (c.outbox.filter fun a => a.snapshot.entry.id = row.id) = c.story row.key := by
  unfold story
  refine List.filter_congr fun a ha => ?_
  rcases h.known a ha with ⟨other, hother, hid⟩
  have hmem := Store.mem_of_find? hother
  have hkey := Store.key_of_find? hother
  rw [← hid, ← hkey]
  refine decide_eq_decide.2 ⟨fun heq => ?_, fun heq => ?_⟩
  · rw [h.store.eq_of_id hmem hrow heq]
  · rw [h.store.eq_of_key hmem hrow heq]

/-! ## What has been recorded -/

/-- How many events of a season record a submission on a key. -/
def recordings (key : Try.Key) : Contest → List Event → Nat
  | _, [] => 0
  | c, e :: rest => (if e.recorded? c = some key then 1 else 0) + recordings key (c.after e) rest

theorem Becomes.attemptsOf_eq {what : Option (Try.Key × Deal)} (hs : c.store.Sound)
    (h : c.Becomes what c') (key : Try.Key) : c'.store.attemptsOf key =
      c.store.attemptsOf key + if Call.answered? what = some key then 1 else 0 := by
  cases h with
  | same hagrees => simp [hagrees.store_eq, Call.answered?]
  | @changed _ answered deal tidings p hdirectory hplan hnow hmoment hplayer hchange houtbox =>
    rw [hchange.attemptsOf_eq hs key]
    cases deal with
    | opening level start => simp [Call.answered?, Deal.isAnswer]
    | answer now answer correct =>
      by_cases hkey : key = answered
      · simp [Call.answered?, Deal.isAnswer, hkey]
      · simp [Call.answered?, Deal.isAnswer, hkey, Ne.symm hkey]

/-- The attempts of a try grow with the submissions that are recorded on its key. -/
theorem attemptsOf_season (hs : c.store.Sound) (hc : c.store.Cascaded) (key : Try.Key)
    (events : List Event) : (c.season events).store.attemptsOf key =
      c.store.attemptsOf key + recordings key c events := by
  induction events generalizing c with
  | nil => exact (Int.add_zero _).symm
  | cons e rest ih =>
    rcases sound_after hs hc e with ⟨hs', hc'⟩
    have hafter : (c.after e).store.attemptsOf key =
        c.store.attemptsOf key + if e.recorded? c = some key then 1 else 0 := by
      rcases after_cases hs hc e with ⟨x, rfl⟩ | ⟨what, hbecomes, hrecorded⟩
      · exact (Int.add_zero _).symm
      · rw [hrecorded]
        exact hbecomes.attemptsOf_eq hs key
    change ((c.after e).season rest).store.attemptsOf key = _
    rw [ih hs' hc', hafter, recordings]
    split <;> omega

/-! ## Seasons in universal time -/

/-- An event does not set the clock to anything but universal time. -/
def Event.IsUtc : Event → Prop
  | .around x => x.now.IsUtc
  | _ => True

/-- All moments of a contest are in universal time. -/
structure InUtc (c : Contest) : Prop where
  now : c.now.IsUtc
  tries : ∀ t ∈ c.store.tries, t.IsUtc
  outbox : ∀ a ∈ c.outbox, a.snapshot.entry.IsUtc

theorem InUtc.becomes {what : Option (Try.Key × Deal)} (h : c.InUtc) (hbecomes : c.Becomes what c') :
    c'.InUtc := by
  have hnow : c'.now.IsUtc := hbecomes.now_eq ▸ h.now
  cases hbecomes with
  | same hagrees => exact ⟨hnow, hagrees.store_eq ▸ h.tries, hagrees.outbox_eq ▸ h.outbox⟩
  | @changed _ key deal tidings p hdirectory _ _ hmoment hplayer hchange houtbox =>
    have htidings := hchange.isUtc h.tries (hmoment ▸ h.now)
    refine ⟨hnow, ?_, ?_⟩
    · rw [hchange.tries_eq]
      exact Store.forall_mem_tell h.tries htidings
    · intro a ha
      rw [houtbox] at ha
      rcases List.mem_append.1 ha with ha | ha
      · exact h.outbox a ha
      · rcases List.mem_map.1 ha with ⟨n, hn, rfl⟩
        exact htidings n hn

theorem InUtc.season (h : c.InUtc) (hs : c.store.Sound) (hc : c.store.Cascaded)
    {events : List Event} (hevents : ∀ e ∈ events, e.IsUtc) : (c.season events).InUtc := by
  induction events generalizing c with
  | nil => exact h
  | cons e rest ih =>
    rcases sound_after hs hc e with ⟨hs', hc'⟩
    have hafter : (c.after e).InUtc := by
      rcases after_cases hs hc e with ⟨x, rfl⟩ | ⟨what, hbecomes, -⟩
      · exact ⟨hevents _ List.mem_cons_self, h.tries, h.outbox⟩
      · exact h.becomes hbecomes
    exact ih hafter hs' hc' fun e' he' => hevents e' (List.mem_cons_of_mem e he')

/-! ## The chronicle -/

/-- What is listed of a competition. -/
def listing (c : Contest) (x : String) : List (Snapshot Nat) :=
  ((c.store.ofCompetition x).map c.snapshot).map Snapshot.listed

theorem readCompetitionTries_apply (x : String) (c : Contest) :
    (readCompetitionTries x).map (List.map Snapshot.listed) c = (.ok (c.listing x), c) := rfl

theorem InUtc.listing_perm (h : c.InUtc) (x : String) : (c.listing x).Perm (c.display x) := by
  have hlisted : c.listing x = (c.store.ofCompetition x).map c.snapshot := by
    unfold listing
    rw [List.map_map]
    refine List.map_congr_left fun t ht => ?_
    have hmem : t ∈ c.store.tries := by
      unfold Store.ofCompetition at ht
      exact (List.mem_filter.1 (List.mem_mergeSort.1 ht)).1
    exact Snapshot.listed_of_isUtc (h.tries t hmem)
  rw [hlisted]
  exact (List.mergeSort_perm _ _).map c.snapshot

/-- What the announcements tell of a contest, from an earlier time to a later one. -/
structure Chronicle (earlier later : Contest) (recorded : Try.Key → Nat) : Prop where
  /-- The announcements of each try are its tale. -/
  tale : ∀ row ∈ later.store.tries,
    Tale row (later.outbox.filter fun a => a.snapshot.entry.id = row.id)
  /-- All announcements are about tries. -/
  known : ∀ a ∈ later.outbox, ∃ row ∈ later.store.tries, row.id = a.snapshot.entry.id
  /-- The attempts of a try are the submissions that were recorded. -/
  counted : ∀ row ∈ later.store.tries, row.attempts = recorded row.key
  /-- What was listed of a competition earlier, with what has been announced of it since, is what is
  listed of it later. -/
  replayed : ∀ x, ∃ news, later.outbox = earlier.outbox ++ news ∧
    (Announcement.replay (earlier.listing x)
      ((Announcement.of x news).map Announcement.sent)).Perm (later.listing x)

theorem replay_listing {earlier later : Contest} {news : List (Announcement Nat)} {x : String}
    (hearlier : earlier.InUtc) (hlater : later.InUtc)
    (houtbox : later.outbox = earlier.outbox ++ news)
    (hdisplay : later.display x =
      Announcement.replay (earlier.display x) (Announcement.of x news)) :
    (Announcement.replay (earlier.listing x)
      ((Announcement.of x news).map Announcement.sent)).Perm (later.listing x) := by
  have hsent : (Announcement.of x news).map Announcement.sent = Announcement.of x news := by
    have hsame : ∀ a ∈ Announcement.of x news, a.sent = id a := by
      intro a ha
      have hmem : a ∈ later.outbox := by
        rw [houtbox]
        exact List.mem_append_right _ (List.mem_filter.1 ha).1
      unfold Announcement.sent
      rw [Snapshot.sent_of_isUtc (hlater.outbox a hmem)]
      rfl
    rw [List.map_congr_left hsame, List.map_id]
  rw [hsent]
  have hreplay := Announcement.replay_perm (hearlier.listing_perm x) (Announcement.of x news)
  rw [← hdisplay] at hreplay
  exact hreplay.trans (hlater.listing_perm x).symm

/-- The announcements of every season that starts without tries and keeps universal time are a
chronicle of its tries, from each time of the season on. -/
theorem chronicle_season (c : Contest) (before rest : List Event) (hnow : c.now.IsUtc)
    (hevents : ∀ e ∈ before ++ rest, e.IsUtc) :
    Chronicle (c.bare.season before) (c.bare.season (before ++ rest))
      fun key => recordings key c.bare (before ++ rest) := by
  have hbare : c.bare.InUtc := ⟨hnow, by simp [bare], by simp [bare]⟩
  have htold := (told_bare c).season (before ++ rest)
  have hbefore := (told_bare c).season before
  have hearlier : (c.bare.season before).InUtc :=
    hbare.season Store.sound_empty Store.cascaded_empty fun e he =>
      hevents e (List.mem_append_left rest he)
  have hlater : (c.bare.season (before ++ rest)).InUtc :=
    hbare.season Store.sound_empty Store.cascaded_empty hevents
  refine ⟨?_, ?_, ?_, ?_⟩
  · intro row hrow
    rw [htold.filter_id hrow]
    exact htold.tale row.key row ((Store.find?_eq_some_iff htold.store).2 ⟨hrow, rfl⟩)
  · intro a ha
    rcases htold.known a ha with ⟨row, hrow, hid⟩
    exact ⟨row, Store.mem_of_find? hrow, hid⟩
  · intro row hrow
    have hattempts := attemptsOf_season (c := c.bare) Store.sound_empty Store.cascaded_empty row.key
      (before ++ rest)
    have hfind := (Store.find?_eq_some_iff htold.store).2 ⟨hrow, rfl⟩
    unfold Store.attemptsOf at hattempts
    rw [hfind] at hattempts
    simpa [bare, Store.find?] using hattempts
  · intro x
    rcases replay_season hbefore.store hbefore.cascaded rest with ⟨news, houtbox, hdisplay⟩
    rw [← season_append] at houtbox hdisplay
    exact ⟨news, houtbox, replay_listing hearlier hlater houtbox (hdisplay x)⟩

/-- A puzzle is opened, and a minute later it is answered twice. -/
theorem chronicle_season_sample :
    let opened := [Event.call (.caller 0) (.trigger sampleOpening)]
    let later : Moment := { wall := sample.now.wall + 60000000, offset := some 0 }
    let answered := [Event.around { sample with now := later },
      .call (.caller 0) (.submit sampleSubmission), .call (.caller 1) (.submit sampleSubmission)]
    sample.now.IsUtc ∧ (∀ e ∈ opened ++ answered, e.IsUtc) ∧
      Chronicle (sample.bare.season opened) (sample.bare.season (opened ++ answered))
        (fun key => recordings key sample.bare (opened ++ answered)) ∧
      (sample.bare.season (opened ++ answered)).outbox.map (·.news) = [.made, .changed, .changed] := by
  intro opened later answered
  have hevents : ∀ e ∈ opened ++ answered, e.IsUtc := by
    intro e he
    simp only [opened, answered, List.cons_append, List.nil_append, List.mem_cons,
      List.not_mem_nil, or_false] at he
    rcases he with rfl | rfl | rfl | rfl
    · trivial
    · exact rfl
    · trivial
    · trivial
  exact ⟨rfl, hevents, chronicle_season sample opened answered rfl hevents, by decide +kernel⟩

end Contest

end PuzzleContest
