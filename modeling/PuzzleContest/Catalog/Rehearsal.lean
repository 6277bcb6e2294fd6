import PuzzleContest.Catalog
import PuzzleContest.Json.Writer

/-!
# A catalog for rehearsals

The rehearsal catalog is always in good health.  Every step of every puzzle is solved by one
answer, and every input is the same short list beside the request's own parameters.
-/

namespace PuzzleContest.Catalog

/-- The answer that solves every rehearsal puzzle. -/
def rehearsalAnswer : String := "42"

/-- A parameter of a request. -/
def Request.param (request : Request) (name : String) : String :=
  ((request.params.find? fun p => p.1 = name).map (·.2)).getD ""

/-- The object that the rehearsal catalog answers: a verdict where there is a solution to judge. -/
def rehearsalObject (request : Request) : Json :=
  match request.params.find? fun p => p.1 = "solution" with
  | some (_, answer) => .object [("matches", .bool (answer = rehearsalAnswer))]
  | none =>
    .object [("puzzle", .text (request.param "puzzle")), ("theme", .text (request.param "theme")),
      ("seed", .text (request.param "unique_id")), ("input", .list [.int 1, .int 2, .int 3])]

/-- The reply of the rehearsal catalog. -/
def rehearse (request : Request) : Reply :=
  .answered 200 (String.ofList (Json.write (fun _ => []) (rehearsalObject request)))

end PuzzleContest.Catalog
