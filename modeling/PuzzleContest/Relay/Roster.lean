/-!
# Who listens to which competition

A roster is the registry of the broadcast hub: it keeps, for each competition, the names of its
listeners.  A competition without listeners
has no entry.

Main definitions:

- `Roster.add`, `Roster.discard`: a listener comes or goes.
- `Roster.members`: the listeners of a competition.
-/

namespace PuzzleContest.Relay

/-- The names of the listeners by competition. -/
structure Roster where
  entries : List (String × List String) := []
deriving DecidableEq, Repr

namespace Roster

/-- The listeners of a competition. -/
def members (r : Roster) (competition : String) : List String :=
  ((r.entries.find? fun e => e.1 = competition).map (·.2)).getD []

/-- The number of listeners of a competition. -/
def count (r : Roster) (competition : String) : Nat := (r.members competition).length

/-- The competitions that have an entry. -/
def competitions (r : Roster) : List String := r.entries.map (·.1)

/-- Add a name to a list that may hold it already. -/
def addName (name : String) (names : List String) : List String :=
  if name ∈ names then names else names ++ [name]

/-- Add a listener to the entry of a competition, made if there is none. -/
def addTo (competition name : String) : List (String × List String) → List (String × List String)
  | [] => [(competition, [name])]
  | e :: rest =>
    if e.1 = competition then (competition, addName name e.2) :: rest
    else e :: addTo competition name rest

/-- A listener comes. -/
def add (r : Roster) (competition name : String) : Roster :=
  ⟨addTo competition name r.entries⟩

/-- What is left of an entry without a listener, if anything is. -/
def remainder? (competition name : String) (e : String × List String) :
    Option (String × List String) :=
  if e.1 = competition then
    match e.2.filter (· ≠ name) with
    | [] => none
    | names => some (competition, names)
  else some e

/-- A listener goes. -/
def discard (r : Roster) (competition name : String) : Roster :=
  ⟨r.entries.filterMap (remainder? competition name)⟩

end Roster

end PuzzleContest.Relay
