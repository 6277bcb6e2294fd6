import PuzzleContest.Proofs.Message
import PuzzleContest.Try.Document

/-!
# What is sent to spectators can be read

The announcements of the service are data of the declared type of events.  As JSON they are what the
library of forms writes of such data, and every library that keeps to its documents reads them as just
these data, as long as the moments of the try can be written and its score is finite.

Main definitions:

- `Announcement.datum`: an announcement as data of the declared type.
- `Try.Sendable`: a try that can be sent.

Main results:

- `Announcement.document_eq`: announcements are written as the declared data that they are.
- `Announcement.validate_document`: and read as these.
-/

namespace PuzzleContest

variable {ι : Type} {showId : ι → String}

/-! ## Declared data -/

/-- A text that may be missing. -/
def Datum.ofText? (s : Option String) : Datum := (s.map fun s => .text s).getD .null

/-- A moment that may be missing, with its distance from universal time made explicit. -/
def Datum.ofMoment? (m : Option Moment) : Datum := (m.map fun m => .moment m.inUtc).getD .null

/-- A group as data of its declared type. -/
def Group.datum (g : Group) : Datum :=
  .record [("id", .text g.id), ("name", .text g.name), ("description", .ofText? g.description)]

/-- A player as data of its declared type. -/
def Player.datum (p : Player) : Datum :=
  .record [("id", .text p.id), ("firstname", .text p.firstName), ("lastname", .text p.lastName),
    ("groups", .list (p.groups.map Group.datum))]

/-- The fields of a try, given how an id is shown. -/
def Try.data (showId : ι → String) (t : Try ι) : List (String × Datum) :=
  [("id", .text (showId t.id)), ("competition_id", .text t.key.competition),
    ("user_id", .text t.key.player), ("puzzle_id", .text t.key.puzzle),
    ("puzzle_index", .integer t.key.index), ("puzzle_lvl", .text t.level),
    ("step", .integer t.key.step), ("start_time", .moment t.start.inUtc),
    ("end_time", .ofMoment? t.finish), ("attempts", .integer t.attempts),
    ("last_answer", .ofText? t.lastAnswer), ("last_move_time", .ofMoment? t.lastMove),
    ("score", .number t.score)]

/-- A snapshot as data of its declared type. -/
def Snapshot.datum (showId : ι → String) (s : Snapshot ι) : Datum :=
  .record (s.entry.data showId ++ [("user", (s.player.map Player.datum).getD .null)])

/-- An announcement as data of its declared type. -/
def Announcement.datum (showId : ι → String) (a : Announcement ι) : Datum :=
  .record [("competition_id", .text a.competition), ("attempt", a.snapshot.datum showId),
    ("update_type", .text a.news.name)]

/-! ## Written -/

section Written

variable {outer : Bool}

theorem Datum.dump_ofText? (s : Option String) :
    Form.dump outer (.nullable .text) (.ofText? s) = Json.ofText? s := by
  cases s <;> rfl

theorem Datum.dump_ofMoment? (m : Option Moment) :
    Form.dump outer (.nullable .moment) (.ofMoment? m) = momentDocument m := by
  cases m <;> rfl

theorem Group.dump_datum (g : Group) : Form.dump outer Group.schema g.datum = g.document := by
  simp [Group.schema, Group.datum, Group.document, Form.dump, Form.dumpFields, Field.shown,
    Datum.dump_ofText?, Json.Spelling.value]

theorem Player.dump_datum (p : Player) : Form.dump outer Player.schema p.datum = p.document := by
  have hgroups : (p.groups.map Group.datum).map (Form.dump outer Group.schema) =
      p.groups.map Group.document := by
    rw [List.map_map]
    exact List.map_congr_left fun g _ => g.dump_datum
  simp [Player.schema, Player.fields, Player.datum, Player.document, Form.dump, Form.dumpFields,
    Field.shown, hgroups, Json.Spelling.value]

theorem Player.dump_datum? (p : Option Player) :
    Form.dump outer (.nullable Player.schema) ((p.map Player.datum).getD .null) =
      (p.map Player.document).getD .null := by
  cases p with
  | none => rfl
  | some p => exact p.dump_datum

theorem Snapshot.dump_datum (s : Snapshot ι) :
    Form.dump outer Snapshot.schema (s.datum showId) = s.document showId := by
  simp [Snapshot.schema, Snapshot.fields, Try.fields, Snapshot.datum, Try.data, Snapshot.document,
    Try.members, Form.dump, Form.dumpFields, Field.shown, Datum.dump_ofText?, Datum.dump_ofMoment?,
    Player.dump_datum?, Json.Spelling.value, Moment.text]

/-- An announcement is written as the declared data that it is. -/
theorem Announcement.document_eq (a : Announcement ι) :
    a.document showId = message Form.library (a.datum showId) := by
  simp [message, Form.library, schema, fields, datum, document, Form.dump, Form.dumpFields, Field.shown,
    Snapshot.dump_datum, Json.Spelling.value]

end Written

/-! ## Read -/

open Schema (Admits AdmitsFields Finite)

/-- A try that can be sent. -/
structure Try.Sendable (t : Try ι) : Prop where
  start : t.start.Writable
  finish : ∀ m ∈ t.finish, m.Writable
  lastMove : ∀ m ∈ t.lastMove, m.Writable
  score : t.score.isFinite = true

theorem Datum.admits_ofText? (s : Option String) : Admits Finite (.nullable .text) (.ofText? s) := by
  cases s with
  | none => exact .inl rfl
  | some s => exact .inr ⟨s, rfl⟩

theorem Datum.admits_ofMoment? {m : Option Moment} (h : ∀ n ∈ m, n.Writable) :
    Admits Finite (.adjusted .inUtc (.nullable .moment)) (.ofMoment? m) := by
  cases m with
  | none => exact ⟨.null, .inl rfl, rfl⟩
  | some m => exact ⟨.moment m, .inr ⟨m, h m rfl, rfl⟩, rfl⟩

theorem Group.admits_datum (g : Group) : Group.schema.Admits Finite g.datum := by
  simp [Group.schema, Group.datum, Datum.admits_ofText?]

theorem Player.admits_datum (p : Player) : Player.schema.Admits Finite p.datum := by
  have hgroups : Admits Finite (.list Group.schema) (.list (p.groups.map Group.datum)) := by
    refine ⟨_, rfl, fun d hd => ?_⟩
    obtain ⟨g, -, rfl⟩ := List.mem_map.1 hd
    exact g.admits_datum
  simp [Player.schema, Player.fields, Player.datum, hgroups]

theorem Player.admits_datum? (p : Option Player) :
    Admits Finite (.nullable Player.schema) ((p.map Player.datum).getD .null) := by
  cases p with
  | none => exact .inl rfl
  | some p => exact .inr p.admits_datum

theorem Snapshot.admits_datum {s : Snapshot ι} (h : s.entry.Sendable) :
    Snapshot.schema.Admits Finite (s.datum showId) := by
  have hstart : Admits Finite (.adjusted .inUtc .moment) (.moment s.entry.start.inUtc) :=
    ⟨.moment s.entry.start, ⟨_, h.start, rfl⟩, rfl⟩
  simpa [Snapshot.schema, Snapshot.fields, Try.fields, Snapshot.datum, Try.data, hstart,
    Datum.admits_ofMoment? h.finish, Datum.admits_ofMoment? h.lastMove, Datum.admits_ofText?,
    Player.admits_datum?] using h.score

theorem Announcement.admits_datum {a : Announcement ι} (h : a.snapshot.entry.Sendable) :
    schema.Admits Finite (a.datum showId) := by
  have hnews : Admits Finite (.choice ["new", "update"]) (.text a.news.name) := by
    refine ⟨a.news.name, ?_, rfl⟩
    cases a.news <;> simp [News.name]
  simp [schema, fields, datum, Snapshot.admits_datum h, hnews]

/-- Spectators read an announcement as the declared data that it is, whatever documented library they
use. -/
theorem Announcement.validate_document {L : Library} (hL : L.Documented) {a : Announcement ι}
    (h : a.snapshot.entry.Sendable) :
    L.validate schema (a.document showId) = .ok (a.datum showId) := by
  rw [document_eq]
  exact hL.again Form.documented schema schema_sound (admits_datum h)

end PuzzleContest
