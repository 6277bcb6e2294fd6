import PuzzleContest.Schema

/-!
# The declared types of events

What spectators are told is declared: the groups of a player, the player, a try with its player, and the
event that a try has been made or changed.  Readings of clocks count as universal time where nothing
else is said.

Main definitions:

- `Group.schema`, `Player.schema`, `Snapshot.schema`, `Announcement.schema`: the declared types.
- `Announcement.message`: how an event is sent.
-/

namespace PuzzleContest

/-- A moment with its distance from universal time made explicit; other data stay as they are. -/
def Datum.inUtc : Datum → Datum
  | .moment m => .moment m.inUtc
  | d => d

/-- The declared type of a group. -/
def Group.schema : Schema :=
  .record { ofAttributes := true } [
    ({ name := "id" }, .text),
    ({ name := "name" }, .text),
    ({ name := "description", default := some .null }, .nullable .text)]

/-- The declared fields of a player. -/
def Player.fields : List (Field × Schema) := [
  ({ name := "id" }, .text),
  ({ name := "firstname" }, .text),
  ({ name := "lastname" }, .text),
  ({ name := "groups", default := some (.list []) }, .list Group.schema)]

/-- The declared type of a player. -/
def Player.schema : Schema := .record { ofAttributes := true } Player.fields

/-- The declared fields of a try. -/
def Try.fields : List (Field × Schema) := [
  ({ name := "id" }, .text),
  ({ name := "competition_id" }, .text),
  ({ name := "user_id" }, .text),
  ({ name := "puzzle_id" }, .text),
  ({ name := "puzzle_index" }, .integer),
  ({ name := "puzzle_lvl" }, .text),
  ({ name := "step" }, .integer),
  ({ name := "start_time" }, .adjusted .inUtc .moment),
  ({ name := "end_time", default := some .null }, .adjusted .inUtc (.nullable .moment)),
  ({ name := "attempts" }, .integer),
  ({ name := "last_answer", default := some .null }, .nullable .text),
  ({ name := "last_move_time", default := some .null }, .adjusted .inUtc (.nullable .moment)),
  ({ name := "score", default := some (.number (.finite false 0)) }, .number)]

/-- The declared fields of a try with its player. -/
def Snapshot.fields : List (Field × Schema) :=
  Try.fields ++ [({ name := "user", default := some .null }, .nullable Player.schema)]

/-- The declared type of a try with its player. -/
def Snapshot.schema : Schema := .record { ofAttributes := true } Snapshot.fields

/-- The declared fields of an event; the try goes by one of two names. -/
def Announcement.fields : List (Field × Schema) := [
  ({ name := "competition_id" }, .text),
  ({ name := "attempt", outerName := some "try" }, Snapshot.schema),
  ({ name := "update_type" }, .choice ["new", "update"])]

/-- The declared type of an event. -/
def Announcement.schema : Schema := .record { byName := true } Announcement.fields

/-- How an event is sent: under the outer names of its fields. -/
def Announcement.message (library : Library) (event : Datum) : Json :=
  library.dump true Announcement.schema event

end PuzzleContest
