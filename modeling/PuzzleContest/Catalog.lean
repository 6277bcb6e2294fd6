import PuzzleContest.Json.Reader
import PuzzleContest.Refusal

/-!
# The puzzle catalog

A catalog is a remote service, and this is its client.  It generates the input of a puzzle for a user
and checks answers; both are one request each, whose reply must be a JSON object under status 200.

Main definitions:

- `Request`, `Reply`: what is sent, and what comes of it.
- `Client`: who asks.
- `check`, `fetchInput`: the two questions, with the requests they make.
-/

namespace PuzzleContest.Catalog

/-- A request for a resource, with unencoded parameters and a limit in seconds. -/
structure Request where
  url : String
  params : List (String × String)
  timeout : Binary64
deriving DecidableEq, Repr

/-- A failure that is none of the network's. -/
inductive Crash where
  | runtime (message : String)
  | value (message : String)
  /-- The containers in a reply lie too deep inside each other. -/
  | depth (container : Json.Container)
  /-- An integer that is to be shown has too many digits to be written. -/
  | printing
deriving DecidableEq, Repr

/-- What comes of a request. -/
inductive Reply where
  | answered (status : Int) (body : String)
  | unreachable (reason : String)
  | crashed (crash : Crash)
deriving DecidableEq, Repr

/-- Why a question has no answer. -/
inductive Trouble where
  | refused (r : Refusal)
  | crashed (crash : Crash)
deriving DecidableEq, Repr

/-- A refusal whose detail shows an integer; one that cannot be written breaks the question. -/
def Trouble.showing (n : Int) (r : Refusal) : Trouble :=
  if Text.isWritable n then .refused r else .crashed .printing

/-- One who asks catalogs. -/
structure Client where
  /-- The seconds that a catalog has for a reply. -/
  timeout : Binary64
  /-- How many containers may lie inside each other in a reply. -/
  room : Nat
deriving DecidableEq, Repr

/-- The answer to a question, and the requests made for it in order. -/
structure Exchange (α : Type) where
  result : Except Trouble α
  requests : List Request

/-- A question refused before any request. -/
def Exchange.refused {α : Type} (r : Refusal) : Exchange α := ⟨.error (.refused r), []⟩

/-- The JSON value that a reply holds, for a reader with so much room. -/
def decode (room : Nat) : Reply → Except Trouble Json
  | .unreachable reason => .error (.refused (.catalogUnreachable reason))
  | .crashed crash => .error (.crashed crash)
  | .answered status body =>
    if status ≠ 200 then .error (.showing status (.catalogStatus status))
    else
      match Json.read room body with
      | .ok value => .ok value
      | .error (.tooDeep container) => .error (.crashed (.depth container))
      | .error _ => .error (.refused .catalogUndecodable)

/-- An address without the slashes at its end. -/
def base (address : String) : List Char := (address.toList.reverse.dropWhile (· = '/')).reverse

/-- The resource of a catalog at a path. -/
def resource (address path : String) : String := String.ofList (base address) ++ path

/-- The path of the check of a step. -/
def checkPath? (step : Int) : Option String :=
  if step = 1 then some "/puzzle/check/first"
  else if step = 2 then some "/puzzle/check/second"
  else none

/-- The path of the generator. -/
def inputPath : String := "/puzzle/generate/input"

/-- The parameters that name a puzzle as generated for one user. -/
def puzzleParams (theme puzzle user : String) : List (String × String) :=
  [("theme", theme), ("puzzle", puzzle), ("unique_id", user)]

/-- The verdict in a decoded reply: a boolean under its name, and nothing else. -/
def verdict? (value : Json) : Option Bool :=
  match value.get? "matches" with
  | some (.bool b) => some b
  | _ => none

/-- Send one request and read its reply with a function that may reject it. -/
def ask {α : Type} (send : Request → Reply) (room : Nat) (request : Request)
    (read : Json → Option α) : Exchange α :=
  ⟨match decode room (send request) with
    | .error t => .error t
    | .ok value => (read value).elim (.error (.refused .catalogUnexpected)) .ok,
    [request]⟩

/-- Whether an answer solves a step of the puzzle generated for a user. -/
def check (send : Request → Reply) (client : Client) (address theme puzzle : String)
    (step : Int) (user answer : String) : Exchange Bool :=
  match checkPath? step with
  | none => ⟨.error (.showing step (.unknownStep step)), []⟩
  | some path =>
    if address = "" then .refused .catalogWithoutAddress
    else
      ask send client.room ⟨resource address path,
        puzzleParams theme puzzle user ++ [("solution", answer)], client.timeout⟩ verdict?

/-- A value that is an object. -/
def object? (value : Json) : Option Json :=
  match value with
  | .object _ => some value
  | _ => none

/-- The input of the puzzle generated for a user. -/
def fetchInput (send : Request → Reply) (client : Client) (address theme puzzle user : String) :
    Exchange Json :=
  if address = "" then .refused .catalogWithoutAddress
  else
    ask send client.room ⟨resource address inputPath, puzzleParams theme puzzle user, client.timeout⟩
      object?

end PuzzleContest.Catalog
