import PuzzleContest.Form
import PuzzleContest.Moment

/-!
# Declared data

The data that come in and go out are declared: which fields a record has, of which types and under which
names.  What a declaration means is up to a library, which checks values against it and writes what it
has accepted.

Main definitions:

- `Datum`: data that a library has accepted.
- `Schema`, `Field`: what is declared.
- `Library`: what checks and writes data as declared.
-/

namespace PuzzleContest

/-- Accepted data. -/
inductive Datum where
  | null
  | text (s : Json.Spelling)
  | integer (n : Int)
  | number (x : Binary64)
  | moment (m : Moment)
  | list (items : List Datum)
  /-- The fields of a record by their own names, in the order in which they are declared. -/
  | record (fields : List (String × Datum))
deriving Repr

/-- What is declared of a field beside its type. -/
structure Field where
  name : String
  /-- The name outside of the record, if it is another. -/
  outerName : Option String := none
  /-- What the field holds if it is not given; a field without this must be given. -/
  default : Option Datum := none

/-- What is declared of a record beside its fields. -/
structure Schema.Options where
  /-- Whether a field with an outer name may also be given under its own. -/
  byName : Bool := false
  /-- Whether the record can be made of other things than objects too. -/
  ofAttributes : Bool := false

/-- A declared type. -/
inductive Schema where
  | text
  | integer
  | number
  | moment
  /-- One of some texts. -/
  | choice (words : List String)
  | nullable (s : Schema)
  | list (s : Schema)
  /-- A type whose data go through a function once they have been accepted. -/
  | adjusted (f : Datum → Datum) (s : Schema)
  | record (options : Schema.Options) (fields : List (Field × Schema))

/-- The names under which a field is looked for, in this order. -/
def Field.names (options : Schema.Options) (field : Field) : List String :=
  match field.outerName with
  | none => [field.name]
  | some outer => if options.byName then [outer, field.name] else [outer]

/-- The name under which a field is written. -/
def Field.shown (outer : Bool) (field : Field) : String :=
  if outer then field.outerName.getD field.name else field.name

/-- What checks values against declarations, and writes accepted data as JSON data, with the outer names
of fields or with their own. -/
structure Library where
  validate : Schema → Json → Checked Datum
  dump : Bool → Schema → Datum → Json

/-- A field of a record. -/
def Datum.get? (d : Datum) (name : String) : Option Datum :=
  match d with
  | .record fields => (fields.find? fun f => f.1 = name).map (·.2)
  | _ => none

end PuzzleContest
