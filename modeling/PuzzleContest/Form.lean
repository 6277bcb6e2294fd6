import PuzzleContest.Json

/-!
# Filling in forms from JSON data

A form reads a JSON value field by field and reports everything that is wrong with it, each
complaint with its kind and its place.  Complaints come in the order in which the fields are
declared.

Main definitions:

- `Complaint`: a kind of misfit at a place.
- `Checked`: a value, or the complaints about it; two checks together report the complaints of both.
- `Form.field`, `Form.fieldOr`: a required field, and one with a default.
-/

namespace PuzzleContest

/-- The kinds of complaints. -/
inductive Complaint.Kind where
  | missing
  | notForm
  | notObject
  | textType
  | textTooShort
  | textUnpaired
  | integerType
  | integerText
  | integerFraction
  | integerSize
  | notFinite
  | belowLeast
  | numberType
  | numberText
  | listType
  | notAmong
  | momentType
  | momentText
  | momentNumber
  | switchType
  | switchText
  | unreadable
deriving DecidableEq, Repr

/-- The name of a kind of complaint in an answer. -/
def Complaint.Kind.name : Complaint.Kind → String
  | .missing => "missing"
  | .notForm => "model_type"
  | .notObject => "model_attributes_type"
  | .textType => "string_type"
  | .textTooShort => "string_too_short"
  | .textUnpaired => "string_unicode"
  | .integerType => "int_type"
  | .integerText => "int_parsing"
  | .integerFraction => "int_from_float"
  | .integerSize => "int_parsing_size"
  | .notFinite => "finite_number"
  | .belowLeast => "greater_than_equal"
  | .numberType => "float_type"
  | .numberText => "float_parsing"
  | .listType => "list_type"
  | .notAmong => "literal_error"
  | .momentType => "datetime_type"
  | .momentText => "datetime_from_date_parsing"
  | .momentNumber => "datetime_parsing"
  | .switchType => "bool_type"
  | .switchText => "bool_parsing"
  | .unreadable => "json_invalid"

/-- One step on the way to a place: a member's name or a position in a list. -/
inductive Place where
  | name (s : String)
  | position (n : Nat)
deriving DecidableEq, Repr

/-- Something wrong at a place, which is reached from the outermost step inwards. -/
structure Complaint where
  kind : Complaint.Kind
  place : List Place
  /-- The value complained about; for a missing member the object that lacks it. -/
  value : Option Json := none
deriving Repr

/-- A value that passed a check, or the complaints about it. -/
inductive Checked (α : Type) where
  | ok (a : α)
  | bad (complaints : List Complaint)

namespace Checked

/-- The complaints of a check. -/
def complaints {α : Type} : Checked α → List Complaint
  | ok _ => []
  | bad cs => cs

/-- One complaint about the value itself. -/
def reject {α : Type} (kind : Complaint.Kind) : Checked α := bad [{ kind, place := [] }]

/-- Complaints that name no value are about this one. -/
def about {α : Type} (value : Json) : Checked α → Checked α
  | ok a => ok a
  | bad cs => bad (cs.map fun c => { c with value := c.value.or (some value) })

/-- Report complaints as lying one step further in. -/
def within {α : Type} (step : Place) : Checked α → Checked α
  | ok a => ok a
  | bad cs => bad (cs.map fun c => { c with place := step :: c.place })

/-- Apply a checked function to a checked value, keeping the complaints about both. -/
def apply {α β : Type} (f : Checked (α → β)) (x : Checked α) : Checked β :=
  match f, x with
  | ok f, ok a => ok (f a)
  | f, x => bad (f.complaints ++ x.complaints)

instance : Applicative Checked where
  pure := ok
  seq f x := f.apply (x ())

/-- Go on with a value that passed. -/
def andThen {α β : Type} (x : Checked α) (f : α → Checked β) : Checked β :=
  match x with
  | ok a => f a
  | bad cs => bad cs

/-- Check the items of a list, each at its position. -/
def items {α : Type} (check : Json → Checked α) : Nat → List Json → Checked (List α)
  | _, [] => ok []
  | n, v :: rest => (List.cons <$> (check v).within (.position n)) <*> items check (n + 1) rest

/-- Two checks together pass exactly if both do. -/
theorem apply_eq_ok {α β : Type} {f : Checked (α → β)} {x : Checked α} {b : β} :
    f.apply x = ok b ↔ ∃ g a, f = ok g ∧ x = ok a ∧ g a = b := by
  cases f <;> cases x <;> simp [apply]

end Checked

namespace Form

open Json (Spelling)

/-- The members of a value that must be an object; any other value gets a complaint of this kind. -/
def objectElse {α : Type} (kind : Complaint.Kind) (v : Json)
    (read : List (Spelling × Json) → Checked α) : Checked α :=
  Checked.about v <|
    match v with
    | .object members => read members
    | _ => .reject kind

/-- The members of a part that must be an object. -/
def object {α : Type} (v : Json) (read : List (Spelling × Json) → Checked α) : Checked α :=
  objectElse .notObject v read

/-- The member under the first of some names that is present. -/
def find? (members : List (Spelling × Json)) : List String → Option (String × Json)
  | [] => none
  | name :: others =>
    match Json.lookup name members with
    | some v => some (name, v)
    | none => find? members others

/-- A required field, which may go by several names; the first is reported when it is missing. -/
def fieldAmong {α : Type} (members : List (Spelling × Json)) (name : String) (others : List String)
    (read : Json → Checked α) : Checked α :=
  match find? members (name :: others) with
  | some (found, v) => ((read v).about v).within (.name found)
  | none => (Checked.reject .missing).within (.name name)

/-- A required field. -/
def field {α : Type} (members : List (Spelling × Json)) (name : String)
    (read : Json → Checked α) : Checked α :=
  fieldAmong members name [] read

/-- A field with a default. -/
def fieldOr {α : Type} (members : List (Spelling × Json)) (name : String) (default : α)
    (read : Json → Checked α) : Checked α :=
  match Json.lookup name members with
  | some v => ((read v).about v).within (.name name)
  | none => .ok default

/-- A value that may be null. -/
def nullable {α : Type} (read : Json → Checked α) : Json → Checked (Option α)
  | .null => .ok none
  | v => some <$> read v

/-- A list of values. -/
def list {α : Type} (read : Json → Checked α) : Json → Checked (List α)
  | .list vs => Checked.items read 0 vs
  | _ => .reject .listType

end Form

end PuzzleContest
