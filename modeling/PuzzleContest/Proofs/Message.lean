import PuzzleContest.Proofs.Checking
import PuzzleContest.Try.Schema

/-!
# Messages read back

The message of an event can be read as an event again, and it is the message of that: whatever spelling
an event was accepted in, its message has the plain one.  Moments keep their instants and their distances
from universal time, groups keep their order, and of two tries the one under the first name counts.  All
of this holds of the declared types of events under any library that keeps to its documents.

Main definitions:

- `ShowsMoment`, `ShowsGroups`, `ShowsPlayer`: parts of an event and what is shown of them.
- `Announcement.Echoes`: what is said of an event and its message.

Main results:

- `Announcement.schema_sound`: events are declared without contradictions.
- `Announcement.validate_without`: beside the first name the second does not count.
- `Announcement.echoes`: the message of an accepted event says the same and is its own message.
-/

namespace PuzzleContest

open Schema (Admits AdmitsFields Any Finite Sound SoundFields)

/-! ## The declared types -/

section Declared

variable {p : Binary64 → Prop} {d : Datum}

theorem Datum.inUtc_inUtc (d : Datum) : d.inUtc.inUtc = d.inUtc := by
  cases d <;> rfl

theorem Datum.admits_inUtc_moment (h : Admits p .moment d) : Admits p .moment d.inUtc := by
  obtain ⟨m, hm, rfl⟩ := h
  exact ⟨m.inUtc, hm.inUtc, rfl⟩

theorem Datum.admits_inUtc_nullable (h : Admits p (.nullable .moment) d) :
    Admits p (.nullable .moment) d.inUtc := by
  rcases h with rfl | h
  · exact .inl rfl
  · exact .inr (admits_inUtc_moment h)

theorem Group.schema_sound : Group.schema.Sound := by
  simp [Group.schema, Sound, SoundFields, Admits, Field.shown]

theorem Player.schema_sound : Player.schema.Sound := by
  simp [Player.schema, Player.fields, Sound, SoundFields, Admits, Field.shown, Group.schema_sound]

theorem Snapshot.schema_sound : Snapshot.schema.Sound := by
  have hmoment : ∀ d, Admits Finite .moment d →
      Admits Finite .moment d.inUtc ∧ d.inUtc.inUtc = d.inUtc :=
    fun d h => ⟨Datum.admits_inUtc_moment h, d.inUtc_inUtc⟩
  have hnullable : ∀ d, Admits Finite (.nullable .moment) d →
      Admits Finite (.nullable .moment) d.inUtc ∧ d.inUtc.inUtc = d.inUtc :=
    fun d h => ⟨Datum.admits_inUtc_nullable h, d.inUtc_inUtc⟩
  have hnone : Admits Any (.adjusted .inUtc (.nullable .moment)) .null := ⟨.null, .inl rfl, rfl⟩
  have hzero : Admits Any .number (.number (.finite false 0)) := ⟨_, trivial, rfl⟩
  have hnull : ∀ s, Admits Any (.nullable s) .null := fun s => .inl rfl
  simp [Snapshot.schema, Snapshot.fields, Try.fields, Sound, SoundFields, Field.shown, hnone, hzero,
    hnull, Player.schema_sound]
  exact ⟨hmoment, hnullable⟩

/-- Events are declared without contradictions. -/
theorem Announcement.schema_sound : Announcement.schema.Sound := by
  simp [Announcement.schema, Announcement.fields, Sound, SoundFields, Field.shown, Snapshot.schema_sound]

/-- The only number of a try is its score. -/
theorem Snapshot.admits_finite (h : Snapshot.schema.Admits Any d)
    (hscore : ∀ x, d.get? "score" = some (.number x) → x.isFinite = true) :
    Snapshot.schema.Admits Finite d := by
  obtain ⟨ds, rfl, id, _, rfl, hid, competition, _, rfl, hcompetition, player, _, rfl, hplayer,
    puzzle, _, rfl, hpuzzle, index, _, rfl, hindex, level, _, rfl, hlevel, step, _, rfl, hstep,
    start, _, rfl, hstart, finish, _, rfl, hfinish, attempts, _, rfl, hattempts,
    lastAnswer, _, rfl, hlastAnswer, lastMove, _, rfl, hlastMove, _, _, rfl, ⟨score, -, rfl⟩,
    user, _, rfl, huser, rfl⟩ := h
  exact ⟨_, rfl, id, _, rfl, hid, competition, _, rfl, hcompetition, player, _, rfl, hplayer,
    puzzle, _, rfl, hpuzzle, index, _, rfl, hindex, level, _, rfl, hlevel, step, _, rfl, hstep,
    start, _, rfl, hstart, finish, _, rfl, hfinish, attempts, _, rfl, hattempts,
    lastAnswer, _, rfl, hlastAnswer, lastMove, _, rfl, hlastMove, _, _, rfl,
    ⟨score, hscore score rfl, rfl⟩, user, _, rfl, huser, rfl⟩

/-- The only number of an event is the score of its try. -/
theorem Announcement.admits_finite (h : Announcement.schema.Admits Any d)
    (hscore : ∀ x, (d.get? "attempt").bind (·.get? "score") = some (.number x) → x.isFinite = true) :
    Announcement.schema.Admits Finite d := by
  obtain ⟨ds, rfl, competition, _, rfl, hcompetition, snapshot, _, rfl, hsnapshot, news, _, rfl, hnews,
    rfl⟩ := h
  exact ⟨_, rfl, competition, _, rfl, hcompetition, snapshot, _, rfl,
    Snapshot.admits_finite hsnapshot hscore, news, _, rfl, hnews, rfl⟩

end Declared

/-! ## What a message shows of an event -/

namespace Json

/-- A value without the members of some name. -/
def without (name : Spelling) : Json → Json
  | .object members => .object (members.filter fun m => m.1 ≠ name)
  | v => v

/-- The try of an event, which goes by one of two names. -/
def attempt? (event : Json) : Option Json :=
  ["try", "attempt"].findSome? fun name : String => event.get? name

theorem lookup_filter_ne {name other : Spelling} (h : name ≠ other) (members : List (Spelling × Json)) :
    lookup name (members.filter fun m => m.1 ≠ other) = lookup name members := by
  induction members with
  | nil => rfl
  | cons m rest ih =>
    unfold lookup at ih ⊢
    by_cases hm : m.1 = name
    · have hother : m.1 ≠ other := by
        rw [hm]
        exact h
      simp [hm, h]
    · by_cases hother : m.1 = other
      · simpa [hother, Ne.symm h] using ih
      · simpa [hother, hm] using ih

end Json

section Shows

variable (L : Library)

/-- A moment of an event and what is shown of it: the same instant, where a reading of unknown distance
counts as universal time, and the same distance.  What an event says in the standard form is taken as it
stands. -/
inductive ShowsMoment : Option Json → Option Json → Prop where
  | missing : ShowsMoment none (some .null)
  | null : ShowsMoment (some .null) (some .null)
  | moment {v : Json} {m n : Moment} {s : String} (hgiven : L.validate .moment v = .ok (.moment m))
      (hstandard : ∀ t k, v = .text t → Moment.Denoted t k → k = m)
      (hshown : Moment.Denoted s n) (hinstant : n.instant = m.instant)
      (hoffset : n.offset = some (m.offset.getD 0)) : ShowsMoment (some v) (some (.text s))

/-- The groups of an event's player and what is shown of them: each group in its place. -/
inductive ShowsGroups : Option Json → Option Json → Prop where
  | missing : ShowsGroups none (some (.list []))
  | groups {given shown : List Json}
      (h : List.Forall₂ (fun v w => ∃ g, L.validate Group.schema v = .ok g ∧
        w = L.dump true Group.schema g) given shown) :
      ShowsGroups (some (.list given)) (some (.list shown))

/-- The player of an event and what is shown of it. -/
inductive ShowsPlayer : Option Json → Option Json → Prop where
  | missing : ShowsPlayer none (some .null)
  | null : ShowsPlayer (some .null) (some .null)
  | player {v w : Json} (h : ShowsGroups L (v.get? "groups") (w.get? "groups")) :
      ShowsPlayer (some v) (some w)

/-- A message says what its event does, and is its own message. -/
structure Announcement.Echoes (event message : Json) : Prop where
  /-- The message of the event is accepted, as the same data. -/
  again : ∃ d, L.validate schema event = .ok d ∧ message = Announcement.message L d ∧
    L.validate schema message = .ok d
  moments : ∀ name ∈ ["start_time", "end_time", "last_move_time"],
    ShowsMoment L (event.attempt?.bind (·.get? name)) ((message.get? "try").bind (·.get? name))
  player : ShowsPlayer L (event.attempt?.bind (·.get? "user"))
    ((message.get? "try").bind (·.get? "user"))
  /-- Beside a try under its first name one under the second does not count. -/
  first_name : event.get? "try" ≠ none →
    ∃ d, L.validate schema (event.without "attempt") = .ok d ∧ message = Announcement.message L d

end Shows

section Message

variable {L : Library} (hL : L.Documented)

include hL

theorem showsMoment_of_moment {v : Json} {u : Datum} (h : L.validate .moment v = .ok u) :
    ShowsMoment L (some v) (some (L.dump true .moment u.inUtc)) := by
  obtain ⟨m, hm, rfl⟩ := hL.moment_type h
  obtain ⟨s, hs, hdump⟩ := hL.dump_moment true hm.inUtc
  rw [Datum.inUtc, hdump]
  refine .moment h ?_ hs rfl rfl
  rintro t k rfl hk
  have hsame := (hL.moment hk).symm.trans h
  simpa using hsame

theorem showsMoment_of_shows {field : Field} {v w : Option Json} (hdefault : field.default = none)
    (h : L.Shows field (.adjusted .inUtc .moment) v w) : ShowsMoment L v w := by
  cases h with
  | given h =>
    obtain ⟨u, hu, rfl⟩ := hL.adjusted.1 h
    rw [hL.dump_adjusted]
    exact showsMoment_of_moment hL hu
  | missing h => simp [hdefault] at h

theorem showsMoment_of_shows_nullable {field : Field} {v w : Option Json}
    (hdefault : field.default = some .null)
    (h : L.Shows field (.adjusted .inUtc (.nullable .moment)) v w) : ShowsMoment L v w := by
  cases h with
  | given h =>
    obtain ⟨u, hu, rfl⟩ := hL.adjusted.1 h
    rw [hL.dump_adjusted]
    rcases hL.nullable.1 hu with ⟨rfl, rfl⟩ | ⟨-, hvalue⟩
    · rw [show Datum.null.inUtc = Datum.null from rfl, hL.dump_null]
      exact .null
    · obtain ⟨m, -, rfl⟩ := hL.moment_type hvalue
      rw [hL.dump_nullable (by simp [Datum.inUtc])]
      exact showsMoment_of_moment hL hvalue
  | missing h =>
    rw [hdefault, Option.some.injEq] at h
    rw [← h, hL.dump_adjusted, hL.dump_null]
    exact .missing

theorem showsGroups_of_shows {field : Field} {v w : Option Json}
    (hdefault : field.default = some (.list []))
    (h : L.Shows field (.list Group.schema) v w) : ShowsGroups L v w := by
  cases h with
  | given h =>
    obtain ⟨given, gs, rfl, rfl, hgiven⟩ := hL.list.1 h
    rw [hL.dump_list]
    refine .groups ?_
    rw [List.forall₂_map_right_iff]
    exact hgiven.imp fun _ g hg => ⟨g, hg, rfl⟩
  | missing h =>
    rw [hdefault, Option.some.injEq] at h
    rw [← h, hL.dump_list]
    exact .missing

theorem showsPlayer_of_shows {field : Field} {v w : Option Json} (hdefault : field.default = some .null)
    (h : L.Shows field (.nullable Player.schema) v w) : ShowsPlayer L v w := by
  cases h with
  | given h =>
    rcases hL.nullable.1 h with ⟨rfl, rfl⟩ | ⟨-, hvalue⟩
    · rw [hL.dump_null]
      exact .null
    · have hmem : ({ name := "groups", default := some (.list []) }, .list Group.schema) ∈
          Player.fields := by simp [Player.fields]
      have hgroups := hL.shows_own Player.schema_sound hvalue hmem rfl
      obtain ⟨members, ds, rfl, rfl, -⟩ := hL.record.1 hvalue
      rw [hL.dump_nullable (by simp)]
      exact .player (showsGroups_of_shows hL rfl hgroups)
  | missing h =>
    rw [hdefault, Option.some.injEq] at h
    rw [← h, hL.dump_null]
    exact .missing

/-- Each moment of a try is shown as it is. -/
theorem showsMoment_of_snapshot {v : Json} {d : Datum} (h : L.validate Snapshot.schema v = .ok d) :
    ∀ name ∈ ["start_time", "end_time", "last_move_time"],
      ShowsMoment L (v.get? name) ((L.dump true Snapshot.schema d).get? name) := by
  have hstart : ({ name := "start_time" }, .adjusted .inUtc .moment) ∈ Snapshot.fields := by
    simp [Snapshot.fields, Try.fields]
  have hfinish : ({ name := "end_time", default := some .null }, .adjusted .inUtc (.nullable .moment)) ∈
      Snapshot.fields := by simp [Snapshot.fields, Try.fields]
  have hlastMove : ({ name := "last_move_time", default := some .null },
      .adjusted .inUtc (.nullable .moment)) ∈ Snapshot.fields := by simp [Snapshot.fields, Try.fields]
  intro name hname
  simp only [List.mem_cons, List.not_mem_nil, or_false] at hname
  rcases hname with rfl | rfl | rfl
  · exact showsMoment_of_shows hL rfl (hL.shows_own Snapshot.schema_sound h hstart rfl)
  · exact showsMoment_of_shows_nullable hL rfl (hL.shows_own Snapshot.schema_sound h hfinish rfl)
  · exact showsMoment_of_shows_nullable hL rfl (hL.shows_own Snapshot.schema_sound h hlastMove rfl)

/-- An event with a try under its first name is read as if there were none under the second. -/
theorem Announcement.validate_without {v : Json} {d : Datum} (h : L.validate schema v = .ok d)
    (htry : v.get? "try" ≠ none) : L.validate schema (v.without "attempt") = .ok d := by
  obtain ⟨members, ds, rfl, rfl, hfills⟩ := hL.record.1 h
  obtain ⟨t, ht⟩ : ∃ t, Json.lookup "try" members = some t := Option.ne_none_iff_exists'.1 htry
  refine hL.record.2 ⟨_, ds, rfl, rfl, ?_⟩
  generalize hothers : members.filter (fun m => m.1 ≠ .plain "attempt") = others
  have hlookup : ∀ name : String, name ≠ "attempt" →
      Json.lookup name others = Json.lookup name members := by
    intro name hname
    rw [← hothers]
    exact Json.lookup_filter_ne (by simpa using hname) members
  rcases hfills with _ | ⟨hcompetition, _ | ⟨hsnapshot, _ | ⟨hnews, ⟨⟩⟩⟩⟩
  refine .cons (hcompetition.congr ?_) (.cons (hsnapshot.congr ?_) (.cons (hnews.congr ?_) .nil))
  · simp [Field.names, Form.find?, hlookup]
  · simp [Field.names, Form.find?, hlookup, ht]
  · simp [Field.names, Form.find?, hlookup]

/-- The message of an event that is accepted says what the event does, and is its own message. -/
theorem Announcement.echoes {event : Json} {d : Datum} (h : L.validate schema event = .ok d)
    (hscore : ∀ x, (d.get? "attempt").bind (·.get? "score") = some (.number x) → x.isFinite = true) :
    Echoes L event (message L d) := by
  have hagain : L.validate schema (message L d) = .ok d :=
    hL.again hL schema schema_sound (admits_finite (hL.admits schema schema_sound h) hscore)
  have hmem : ({ name := "attempt", outerName := some "try" }, Snapshot.schema) ∈ fields := by
    simp [fields]
  have htry : L.Shows _ Snapshot.schema event.attempt? ((message L d).get? "try") :=
    hL.shows schema_sound h hmem
  generalize hattempt : event.attempt? = attempt at htry
  generalize hshown : (message L d).get? "try" = shown at htry
  cases htry with
  | missing hdefault => cases hdefault
  | given hvalue =>
    refine ⟨⟨d, h, rfl, hagain⟩, ?_, ?_, fun hfirst => ⟨d, validate_without hL h hfirst, rfl⟩⟩
    · rw [hattempt, hshown]
      exact showsMoment_of_snapshot hL hvalue
    · rw [hattempt, hshown]
      have hmem : ({ name := "user", default := some .null }, .nullable Player.schema) ∈
          Snapshot.fields := by simp [Snapshot.fields]
      exact showsPlayer_of_shows hL rfl (hL.shows_own Snapshot.schema_sound hvalue hmem rfl)

end Message

/-- An event in a loose spelling, with null under the second name: integers as text and as a boolean,
times with and without a distance and as a timestamp, and two groups that are not in the order of their
ids. -/
theorem Announcement.echoes_sample :
    let group (id name : String) : Json := .object [("id", .text id), ("name", .text name)]
    let event : Json := .object [("competition_id", .text "cup"), ("attempt", .null),
      ("try", .object [("id", .text "t"), ("competition_id", .text "cup"), ("user_id", .text "player"),
        ("puzzle_id", .text "knots"), ("puzzle_index", .text " +007 "), ("puzzle_lvl", .text "EASY"),
        ("step", .bool true), ("start_time", .text "2026-10-19 12:00"),
        ("end_time", .text "2026-10-19T14:01:02.5+02:00"), ("attempts", .int 3),
        ("last_move_time", .int 1792411262), ("score", .bool true),
        ("user", .object [("id", .text "player"), ("firstname", .text "First"),
          ("lastname", .text "Last"), ("groups", .list [group "b" "Second", group "a" "First"])])]),
      ("update_type", .text "update")]
    let shownGroup (id name : String) : Datum :=
      .record [("id", .text id), ("name", .text name), ("description", .null)]
    let d : Datum := .record [("competition_id", .text "cup"),
      ("attempt", .record [("id", .text "t"), ("competition_id", .text "cup"),
        ("user_id", .text "player"), ("puzzle_id", .text "knots"), ("puzzle_index", .integer 7),
        ("puzzle_lvl", .text "EASY"), ("step", .integer 1),
        ("start_time", .moment ⟨63928008000000000, some 0⟩),
        ("end_time", .moment ⟨63928015262500000, some 7200⟩), ("attempts", .integer 3),
        ("last_answer", .null), ("last_move_time", .moment ⟨63928008062000000, some 0⟩),
        ("score", .number (Binary64.ofInt 1)),
        ("user", .record [("id", .text "player"), ("firstname", .text "First"),
          ("lastname", .text "Last"),
          ("groups", .list [shownGroup "b" "Second", shownGroup "a" "First"])])]),
      ("update_type", .text "update")]
    Form.library.validate schema event = .ok d ∧ Echoes Form.library event (message Form.library d) := by
  intro group event shownGroup d
  have h : Form.library.validate schema event = .ok d := by rfl
  refine ⟨h, echoes Form.documented h ?_⟩
  intro x hx
  have hone : some (Datum.number (Binary64.ofInt 1)) = some (.number x) := hx
  rw [← Datum.number.inj (Option.some.inj hone)]
  decide +kernel

end PuzzleContest
