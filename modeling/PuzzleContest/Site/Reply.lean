import PuzzleContest.Contest.Play
import PuzzleContest.Form
import PuzzleContest.Token
import PuzzleContest.Try.Document

/-!
# Replies

What the site replies: data of the contest, a refusal, an objection to the request itself,
complaints about its form, or nothing but the fact that something broke.

Main definitions:

- `Reply`: one constructor per kind of answer.
- `Reply.status`, `Reply.json?`: what is sent.
-/

namespace PuzzleContest.Site

/-- What is wrong with a request as a whole. -/
inductive Objection where
  | unknownPath
  | wrongMethod
  | unreadableBody
  | notAuthenticated
  | notYours
  | negativeIndex
deriving DecidableEq, Repr

/-- The status of an objection. -/
def Objection.status : Objection → Nat
  | .unknownPath => 404
  | .wrongMethod => 405
  | .unreadableBody => 400
  | .notAuthenticated => 401
  | .notYours => 403
  | .negativeIndex => 400

/-- The wording of an objection. -/
def Objection.detail : Objection → String
  | .unknownPath => "Not Found"
  | .wrongMethod => "Method Not Allowed"
  | .unreadableBody => "There was an error parsing the body"
  | .notAuthenticated => "Not authenticated"
  | .notYours => "No permission to view these tries"
  | .negativeIndex => "Invalid puzzle index"

/-- What broke while a request was answered. -/
inductive Breakdown where
  | failure (e : Failure)
  | token (fault : Token.Fault)
  /-- A document with a number that is not finite cannot be sent. -/
  | notFinite
  /-- Nor can one with half of a character in its texts. -/
  | unpaired
deriving DecidableEq, Repr

/-- The reply to a request. -/
inductive Reply where
  | healthy
  | document (value : Json)
  | verdict (correct : Bool) (puzzle : String) (step : Int)
  | entries (ts : List (Try Nat))
  | snapshots (ss : List (Snapshot Nat))
  | permission (granted : Bool)
  | refused (r : Refusal)
  | objection (o : Objection)
  | complaints (cs : List Complaint)
  /-- The same place goes by another path. -/
  | moved
  | broken (why : Breakdown)

/-- A place as JSON. -/
def placeDocument : Place → Json
  | .name s => .text s
  | .position n => .int n

/-- A complaint as JSON: its kind and where it lies. -/
def complaintDocument (c : Complaint) : Json :=
  .list [.text c.kind.name, .list (c.place.map placeDocument)]

/-- Why some values cannot be sent together, if they cannot. -/
def obstacle? (values : List Json) : Option Breakdown :=
  if !Json.areFinite values then some .notFinite
  else if !Json.arePaired values then some .unpaired
  else none

namespace Reply

/-- The status of a reply. -/
def status : Reply → Nat
  | refused r => r.status
  | objection o => o.status
  | complaints _ => 422
  | moved => 307
  | broken _ => 500
  | _ => 200

/-- The JSON document of a reply, given how the ids of tries are shown. -/
def json? (showId : Nat → String) : Reply → Option Json
  | healthy => some (.object [("status", .text "ok")])
  | document value => some value
  | verdict correct puzzle step =>
    some (.object [("is_correct", .bool correct), ("puzzle_id", .text puzzle),
      ("puzzle_step", .int step)])
  | entries ts => some (.list (ts.map (Try.document showId)))
  | snapshots ss => some (.list (ss.map (Snapshot.document showId)))
  | permission granted => some (.object [("has_permission", .bool granted)])
  | refused r => some r.body
  | objection o => some (.object [("detail", .text o.detail)])
  | complaints cs => some (.object [("detail", .list (cs.map complaintDocument))])
  | moved | broken _ => none

/-- The text of a reply without a document. -/
def text : Reply → String
  | broken _ => "Internal Server Error"
  | _ => ""

end Reply

end PuzzleContest.Site
