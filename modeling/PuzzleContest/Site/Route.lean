import PuzzleContest.Text.Split

/-!
# Routes

The places of the site.  A path leads to at most one of them; its parameters are segments that are
not empty.

Main definitions:

- `Route.ofPath?`: the place that a path leads to.
- `newsOfPath?`: the competition whose live news a path leads to.
-/

namespace PuzzleContest.Site

/-- A place of the site, with the parameters of its path. -/
inductive Route where
  | health
  | puzzleInput
  | answer
  | competitionTries (competition : String)
  | playerTries (competition player : String)
  | puzzleTries (competition puzzle index : String)
  | permission (competition index : String)
deriving DecidableEq, Repr

/-- The method that a place answers to. -/
def Route.method : Route → String
  | .puzzleInput | .answer => "POST"
  | _ => "GET"

/-- The segments of a path that starts with a slash. -/
def segments? : List Char → Option (List String)
  | '/' :: rest => some ((Text.pieces '/' rest).map String.ofList)
  | _ => none

/-- A place whose parameters are not empty. -/
def given (parameters : List String) (r : Route) : Option Route :=
  if parameters.contains "" then none else some r

/-- The place that some segments lead to. -/
def Route.ofSegments? : List String → Option Route
  | ["health"] => some .health
  | ["competitions", "input"] => some .puzzleInput
  | ["competitions", "answer_puzzle"] => some .answer
  | ["competitions", c, "tries"] => given [c] (.competitionTries c)
  | ["competitions", c, "users", p, "tries"] => given [c, p] (.playerTries c p)
  | ["competitions", c, "puzzles", p, i, "tries"] => given [c, p, i] (.puzzleTries c p i)
  | ["competitions", c, "permission", "puzzles", i] => given [c, i] (.permission c i)
  | _ => none

/-- Read a path with a function on segments.  A line break after the path is overlooked. -/
def onPath? {α : Type} (read : List String → Option α) (path : List Char) : Option α :=
  let readPath (path : List Char) : Option α := (segments? path).bind read
  (readPath path).or (if path.getLast? = some '\n' then readPath path.dropLast else none)

/-- The place that a path leads to. -/
def Route.ofPath? (path : List Char) : Option Route := onPath? Route.ofSegments? path

/-- The place that a path leads to once the slashes at its end are dropped, if it has any. -/
def Route.ofSlashedPath? (path : List Char) : Option Route :=
  if path.getLast? = some '/' then
    Route.ofPath? ((path.reverse.dropWhile (· = '/')).reverse)
  else none

/-- The competition whose live news some segments lead to. -/
def newsOfSegments? : List String → Option String
  | ["competitions", c, "ws"] => if c = "" then none else some c
  | _ => none

/-- The competition whose live news a path leads to. -/
def newsOfPath? (path : List Char) : Option String := onPath? newsOfSegments? path

end PuzzleContest.Site
