import PuzzleContest.Site.Form
import PuzzleContest.Site.Request
import PuzzleContest.Site.Route

/-!
# What stands before the site

Requests reach the site through a front, which is not a part of it: the front finds the place that a
target leads to, headers and cookies by their names, and the JSON data in a body, and it fills in the
forms.  Whatever holds of all sites holds behind every front.

Main definitions:

- `Site.Front`: what a front does.
- `Site.Front.standard`: a front with the paths and forms of the site.
-/

namespace PuzzleContest.Site

/-- What stands before the site. -/
structure Front where
  /-- The place that a target leads to. -/
  place? : String → Option Route
  /-- Whether a target leads to a place once the slashes at its end are dropped. -/
  isSlashed : String → Bool
  /-- The competition whose live news a target leads to. -/
  news? : String → Option String
  header? : Request → String → Option String
  cookie? : Request → String → Option String
  readBody : Request → Except Request.Unreadable Request.Content
  opening : Json → Checked OpeningForm
  attempt : Json → Checked AttemptForm
  /-- The index in a path. -/
  index : String → Checked Int

/-- The front with the paths and forms of the site, which has so much room for the data in a body. -/
def Front.standard (room : Nat) : Front where
  place? target := Route.ofPath? (pathOf target)
  isSlashed target := (Route.ofSlashedPath? (pathOf target)).isSome
  news? target := newsOfPath? (pathOf target)
  header? := Request.header?
  cookie? := Request.cookie?
  readBody := Request.readBody room
  opening := openingForm
  attempt := attemptForm
  index := indexParameter

end PuzzleContest.Site
