import PuzzleContest.Json
import PuzzleContest.Moment.Text
import PuzzleContest.Try

/-!
# Tries as JSON

The members of tries, players and announcements.  Moments are written with their distance from
universal time.
-/

namespace PuzzleContest

/-- The name of a kind of news. -/
def News.name : News → String
  | .made => "new"
  | .changed => "update"

/-- A moment that may be missing. -/
def momentDocument (m : Option Moment) : Json := Json.ofText? (m.map Moment.text)

/-- A group as JSON. -/
def Group.document (g : Group) : Json :=
  .object [("id", .text g.id), ("name", .text g.name), ("description", Json.ofText? g.description)]

/-- A player as JSON. -/
def Player.document (p : Player) : Json :=
  .object [("id", .text p.id), ("firstname", .text p.firstName), ("lastname", .text p.lastName),
    ("groups", .list (p.groups.map Group.document))]

/-- The members of a try, given how an id is shown. -/
def Try.members {ι : Type} (showId : ι → String) (t : Try ι) : List (Json.Spelling × Json) :=
  [("id", .text (showId t.id)), ("competition_id", .text t.key.competition),
    ("user_id", .text t.key.player), ("puzzle_id", .text t.key.puzzle),
    ("puzzle_index", .int t.key.index), ("puzzle_lvl", .text t.level), ("step", .int t.key.step),
    ("start_time", .text t.start.text), ("end_time", momentDocument t.finish),
    ("attempts", .int t.attempts), ("last_answer", Json.ofText? t.lastAnswer),
    ("last_move_time", momentDocument t.lastMove), ("score", .float t.score)]

/-- A try as JSON. -/
def Try.document {ι : Type} (showId : ι → String) (t : Try ι) : Json := .object (t.members showId)

/-- A snapshot as JSON: the members of the try, and the player. -/
def Snapshot.document {ι : Type} (showId : ι → String) (s : Snapshot ι) : Json :=
  .object (s.entry.members showId ++
    [(Json.Spelling.plain "user", (s.player.map Player.document).getD .null)])

/-- An announcement as JSON. -/
def Announcement.document {ι : Type} (showId : ι → String) (a : Announcement ι) : Json :=
  .object [("competition_id", .text a.competition), ("try", a.snapshot.document showId),
    ("update_type", .text a.news.name)]

end PuzzleContest
