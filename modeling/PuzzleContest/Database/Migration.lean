import PuzzleContest.Database.Schema
import PuzzleContest.Database.Target

/-!
# Migrations

Migrations form a chain.  A database stands at a position in the chain, from none of them to all,
and is moved up or down to a revision, which is named or counted from where it stands.

Main definitions:

- `Chain.upgrade`, `Chain.downgrade`: the position after a move, or why the move is refused.
- `State.move`: a database after a move.
-/

namespace PuzzleContest.Database

/-- A step in the chain, with the way up and the way down. -/
structure Migration where
  revision : String
  up : List Operation
  down : List Operation
deriving DecidableEq, Repr

/-- Why a move is refused. -/
inductive Misdirection where
  /-- The target is unknown, or it does not lie where a move could end. -/
  | unknown
  /-- A name is empty, or the way up is to lead to where no migration is. -/
  | nowhere
deriving DecidableEq, Repr

/-- Where a count of steps has led. -/
inductive Spot where
  /-- Before the first migration, where the way down from it starts again at the last one. -/
  | start
  /-- After so many migrations. -/
  | after (n : Nat)
  /-- Below the first migration, with nothing further down. -/
  | bottom
deriving DecidableEq, Repr

/-- The migrations in their order. -/
abbrev Chain := List Migration

namespace Chain

/-! ### Names -/

/-- The number of migrations up to a revision. -/
def find (chain : Chain) (name : List Char) : Except Misdirection Nat :=
  match chain.findIdx? fun m => m.revision.toList = name with
  | some i => .ok (i + 1)
  | none => .error (if name = [] then .nowhere else .unknown)

/-- Where both ends of the chain and the revisions lie. -/
def spotOf (chain : Chain) (name : List Char) : Except Misdirection Spot :=
  if name = "base".toList then .ok .start
  else if name = "head".toList ∨ name = "heads".toList then
    .ok (if chain.isEmpty then .start else .after chain.length)
  else .after <$> chain.find name

/-- The label before the first at sign, if any, and the name after it. -/
def splitLabel (text : List Char) : List Char × List Char :=
  (Text.cutFirst? '@' text).getD ([], text)

/-- Where a name lies, whose label must be a revision if there is one. -/
def labelledSpot (chain : Chain) (text : List Char) : Except Misdirection Spot := do
  let (label, name) := splitLabel text
  if label ≠ [] then discard (chain.find label)
  chain.spotOf name

/-- Whether a label stands for a line of the chain: there is only one, so any position will do. -/
def checkLine (chain : Chain) (label : List Char) : Except Misdirection Unit :=
  discard (chain.labelledSpot label)

/-! ### Steps -/

/-- So many steps up, if there are as many. -/
def climb (chain : Chain) : Nat → Spot → Option Spot
  | 0, spot => some spot
  | n + 1, .start => if chain.isEmpty then none else climb chain n (.after 1)
  | n + 1, .after i => if i < chain.length then climb chain n (.after (i + 1)) else none
  | _ + 1, .bottom => none

/-- So many steps down, if there are as many. -/
def descend (chain : Chain) : Nat → Spot → Option Spot
  | 0, spot => some spot
  | n + 1, .start => descend chain n (if chain.isEmpty then .bottom else .after chain.length)
  | n + 1, .after i => descend chain n (if 1 < i then .after (i - 1) else .bottom)
  | _ + 1, .bottom => none

/-- So many steps up on a line, whose label is checked where a step is possible. -/
def climbLine (chain : Chain) (label : Option (List Char)) (steps : Nat) (spot : Spot) :
    Except Misdirection (Option Spot) := do
  if let some label := label then
    if steps ≠ 0 ∧ (chain.climb 1 spot).isSome then chain.checkLine label
  return chain.climb steps spot

/-- The spot of a database. -/
def present (current : Nat) : Spot := if current = 0 then .start else .after current

/-- A name with a label before it. -/
def join (label : Option (List Char)) (name : List Char) : List Char :=
  match label with
  | some label => label ++ '@' :: name
  | none => name

/-- A spot that must have been found. -/
def found (failure : Misdirection) : Option Spot → Except Misdirection Spot
  | some spot => .ok spot
  | none => .error failure

/-! ### Ways up and down -/

/--
Where the way up to a name leads; `none` means that it stays.  A negative number counts down from
the end of a line, and no line has a label of its own.
-/
def ascent (chain : Chain) (text : List Char) : Except Misdirection (Option Spot) :=
  let (_, name) := splitLabel text
  if name = "base".toList then .ok none
  else
    match (Text.readInteger? name).filter (· < 0) with
    | some steps =>
      if '@' ∈ text then .ok none
      else some <$> found .nowhere (chain.descend steps.natAbs (.after chain.length))
    | none => some <$> chain.labelledSpot text

/-- Where the way up to a target leads; `none` means that it stays. -/
def upGoal (chain : Chain) (current : Nat) : Target → Except Misdirection (Option Spot)
  | .range => .error .unknown
  | .named text => chain.ascent text
  | .counted label none steps => do
    if steps ≤ 0 then throw .unknown
    if let some label := label then
      if current ≠ 0 then chain.checkLine label
    some <$> found .unknown (← chain.climbLine label steps.natAbs (present current))
  | .counted label (some start) steps => do
    if 0 < steps then
      some <$> found .nowhere (← chain.climbLine label steps.natAbs (← chain.spotOf start))
    else
      some <$> found .nowhere (chain.descend steps.natAbs (← chain.labelledSpot (join label start)))

/-- The name of the migration that a database has come to. -/
def revisionAt (chain : Chain) (current : Nat) : List Char :=
  ((chain[current - 1]?).map (·.revision.toList)).getD []

/-- Where the way down to a target leads. -/
def downGoal (chain : Chain) (current : Nat) : Target → Except Misdirection Spot
  | .range => .error .unknown
  | .named text => chain.spotOf ((Text.cutLast? '@' text).elim text (·.2))
  | .counted label none steps => do
    if 0 ≤ steps then throw .unknown
    match label with
    | none =>
      if current = 0 then throw .unknown
      found .unknown (chain.descend steps.natAbs (present current))
    | some label =>
      if current = 0 then throw .nowhere
      chain.checkLine label
      let here ← chain.labelledSpot (join (some label) (chain.revisionAt current))
      found .unknown (chain.descend steps.natAbs here)
  | .counted label (some start) steps => do
    if 0 ≤ steps then
      match ← chain.climbLine label steps.natAbs (← chain.spotOf start) with
      | some (.after n) => return .after n
      | _ => throw .unknown
    else
      found .unknown (chain.descend steps.natAbs (← chain.labelledSpot (join label start)))

/--
The position after a move up, which must lead to a migration; a database that is past it stays.
-/
def upgrade (chain : Chain) (current : Nat) (target : Target) : Except Misdirection Nat := do
  match ← chain.upGoal current target with
  | none => return current
  | some (.after n) => return max current n
  | some _ => throw .nowhere

/-- The position after a move down; the target must not lie above. -/
def downgrade (chain : Chain) (current : Nat) (target : Target) : Except Misdirection Nat := do
  match ← chain.downGoal current target with
  | .after n => if n ≤ current then return n else throw .unknown
  | _ => return 0

/-- The schema after the migrations between two positions have been taken up or down. -/
def move (chain : Chain) (s : Schema) (start stop : Nat) : Schema :=
  if start ≤ stop then
    ((chain.take stop).drop start).foldl (fun s m => s.applyAll m.up) s
  else
    (((chain.take start).drop stop).reverse).foldl (fun s m => s.applyAll m.down) s

end Chain

/-- A database: its schema, and how many migrations it has taken. -/
structure State where
  schema : Schema := {}
  taken : Nat := 0
deriving DecidableEq, Repr

/-- A move of a database. -/
inductive Move where
  | upgrade (target : Target)
  | downgrade (target : Target)
deriving Repr

/-- The database after a move, or why there is none. -/
def State.move (chain : Chain) (s : State) (m : Move) : Except Misdirection State := do
  let stop ← match m with
    | .upgrade target => chain.upgrade s.taken target
    | .downgrade target => chain.downgrade s.taken target
  return { schema := chain.move s.schema s.taken stop, taken := stop }

end PuzzleContest.Database
