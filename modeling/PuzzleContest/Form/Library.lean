import PuzzleContest.Form.Scalar
import PuzzleContest.Schema

/-!
# A library of forms

A library that reads declared data generously, field by field, and writes moments with their distance
from universal time where it is known.

Main definition:

- `Form.library`: what checks and writes data in this way.
-/

namespace PuzzleContest.Form

/-- One of some texts. -/
def choice (words : List String) : Json → Checked Json.Spelling
  | .text s => if words.contains s then .ok s else .reject .notAmong
  | _ => .reject .notAmong

/-- A field as it is declared, by a reader for its type. -/
def declared (options : Schema.Options) (field : Field) (members : List (Json.Spelling × Json))
    (read : Json → Checked Datum) : Checked Datum :=
  match find? members (field.names options) with
  | some (found, v) => ((read v).about v).within (.name found)
  | none =>
    match field.default with
    | some d => .ok d
    | none => (Checked.reject .missing).within (.name (field.shown true))

mutual

/-- Check a value against a declared type. -/
def validate : Schema → Json → Checked Datum
  | .text, v => Datum.text <$> text v
  | .integer, v => Datum.integer <$> integer v
  | .number, v => Datum.number <$> number v
  | .moment, v => Datum.moment <$> moment v
  | .choice words, v => Datum.text <$> choice words v
  | .nullable _, .null => .ok .null
  | .nullable s, v => validate s v
  | .list s, v => Datum.list <$> list (validate s) v
  | .adjusted f s, v => f <$> validate s v
  | .record options fields, v =>
    objectElse (if options.ofAttributes then .notObject else .notForm) v fun members =>
      Datum.record <$> validateFields options members fields

/-- Check the members of an object against the fields of a record. -/
def validateFields (options : Schema.Options) (members : List (Json.Spelling × Json)) :
    List (Field × Schema) → Checked (List (String × Datum))
  | [] => .ok []
  | (field, s) :: rest =>
    (fun d ds => (field.name, d) :: ds) <$> declared options field members (validate s) <*>
      validateFields options members rest

end

mutual

/-- Accepted data of a declared type as JSON data. -/
def dump (outer : Bool) : Schema → Datum → Json
  | .integer, .integer n => .int n
  | .number, .number x => .float x
  | .moment, .moment m => .text (m.render "Z")
  | .text, .text s => s.value
  | .choice _, .text s => s.value
  | .nullable _, .null => .null
  | .nullable s, d => dump outer s d
  | .list s, .list ds => .list (ds.map (dump outer s))
  | .adjusted _ s, d => dump outer s d
  | .record _ fields, .record ds => .object (dumpFields outer fields ds)
  | _, _ => .null

/-- The fields of a record as the members of an object. -/
def dumpFields (outer : Bool) :
    List (Field × Schema) → List (String × Datum) → List (Json.Spelling × Json)
  | (field, s) :: rest, (_, d) :: ds => (field.shown outer, dump outer s d) :: dumpFields outer rest ds
  | _, _ => []

end

/-- The library that reads declared data generously. -/
def library : Library := ⟨validate, dump⟩

end PuzzleContest.Form
