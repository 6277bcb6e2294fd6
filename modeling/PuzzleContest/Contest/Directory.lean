import PuzzleContest.Contest.Failure
import PuzzleContest.Try

/-!
# Who plays, and where

A directory holds the players with their groups and the competitions with the addresses of their
catalogs.  It does not change while a contest runs.

Main definitions:

- `Directory.make`: the directory of loose records that refer to each other by id.
- `Directory.player?`, `Directory.competition?`: look-ups by id.
-/

namespace PuzzleContest

/-- A competition draws its puzzles from one theme of a catalog. -/
structure Competition where
  id : String
  theme : String
  /-- The address of its catalog, if there is such a catalog. -/
  address : Option String
deriving DecidableEq, Repr

/-- A player's record, which names groups by id. -/
structure Directory.Enrolment where
  id : String
  firstName : String
  lastName : String
  groups : List String := []
deriving DecidableEq, Repr

/-- A competition's record, which names its catalog by id. -/
structure Directory.Event where
  id : String
  catalog : String
  theme : String
deriving DecidableEq, Repr

/-- The players and the competitions. -/
structure Directory where
  players : List Player := []
  competitions : List Competition := []
deriving DecidableEq, Repr

namespace Directory

/-- The player of a record, with the groups that exist, sorted by id. -/
def resolvePlayer (groups : List Group) (e : Enrolment) : Player where
  id := e.id
  firstName := e.firstName
  lastName := e.lastName
  groups := (groups.filter fun g => g.id ∈ e.groups).mergeSort fun a b => a.id ≤ b.id

/-- The competition of a record, given the addresses of catalogs by id. -/
def resolveCompetition (catalogs : List (String × String)) (e : Event) : Competition where
  id := e.id
  theme := e.theme
  address := (catalogs.find? fun c => c.1 = e.catalog).map (·.2)

/-- The last record of each group. -/
def latest : List Group → List Group
  | [] => []
  | g :: rest => if rest.any fun h => h.id = g.id then latest rest else g :: latest rest

/-- Refuse a list of ids that names something twice. -/
def checkDistinct (ids : List String) : Except Failure Unit :=
  if ids.Nodup then .ok () else .error .duplicate

/-- The directory of loose records.  Of a group the last record counts; nothing else may occur
twice. -/
def make (groups : List Group) (players : List Enrolment) (catalogs : List (String × String))
    (competitions : List Event) : Except Failure Directory := do
  checkDistinct (players.map (·.id))
  players.forM fun p => checkDistinct p.groups
  checkDistinct (catalogs.map (·.1))
  checkDistinct (competitions.map (·.id))
  return {
    players := players.map (resolvePlayer (latest groups))
    competitions := competitions.map (resolveCompetition catalogs) }

/-- The player of an id. -/
def player? (d : Directory) (id : String) : Option Player := d.players.find? fun p => p.id = id

/-- The competition of an id. -/
def competition? (d : Directory) (id : String) : Option Competition :=
  d.competitions.find? fun c => c.id = id

end Directory

end PuzzleContest
