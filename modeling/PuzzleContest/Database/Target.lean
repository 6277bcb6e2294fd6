import PuzzleContest.Text.Integer
import PuzzleContest.Text.Split

/-!
# Targets of moves through a chain of migrations

A target is a name, or a number of steps from the present position or from a named one.  A label
before an at sign says on which line the target lies.

Main definition:

- `Target.ofText`: the target that a text stands for.
-/

namespace PuzzleContest.Database

/-- Where a move goes to. -/
inductive Target where
  /-- A text that names two ends, to which no single move goes. -/
  | range
  /-- A name, perhaps with a label. -/
  | named (text : List Char)
  /-- So many steps from a named start, or from the present position. -/
  | counted (label : Option (List Char)) (start : Option (List Char)) (steps : Int)
deriving DecidableEq, Repr

namespace Target

/-- Whether a character may stand in the name of a start. -/
def isNameChar (c : Char) : Bool := c.isAlphanum || c = '_'

/--
A start, which may be missing, a sign and digits at the front of a text: the start and the signed
number.  What follows the digits does not count.
-/
def steps? (s : List Char) : Option (Option (List Char) × Int) :=
  let start := s.takeWhile isNameChar
  match s.dropWhile isNameChar with
  | sign :: rest =>
    let digits := (rest.map Text.digitValue?).takeWhile (·.isSome)
    if (sign = '+' ∨ sign = '-') ∧ digits ≠ [] then
      some (if start.isEmpty then none else some start,
        Text.signed (sign = '-') (Text.digitsNumber (digits.filterMap id)))
    else none
  | [] => none

/--
A label of one line of text, an at sign, and a count of steps: the first at sign that fits counts.
The first argument is the label read so far, in reverse.
-/
def labelledSteps? (done : List Char) :
    List Char → Option (List Char × Option (List Char) × Int)
  | [] => none
  | c :: rest =>
    match if c = '@' ∧ done ≠ [] then steps? rest else none with
    | some (start, steps) => some (done.reverse, start, steps)
    | none => if c = '\n' then none else labelledSteps? (c :: done) rest

/-- The target that a text stands for. -/
def ofText (text : String) : Target :=
  let s := text.toList
  if ':' ∈ s then range
  else
    match labelledSteps? [] s with
    | some (label, start, steps) => counted (some label) start steps
    | none =>
      match steps? s with
      | some (start, steps) => counted none start steps
      | none => named s

end Target

end PuzzleContest.Database
