import PuzzleContest.Binary64
import PuzzleContest.Json
import PuzzleContest.Moment

/-!
# Refusals

The ways in which the contest says no.  Every refusal has a kind, which fixes the status of its
answer, and a detail for the reader.

Main definitions:

- `Refusal`: one constructor per cause.
- `Refusal.kind`, `Refusal.detail`, `Refusal.body`: what an answer shows of it.
- `Refusal.waitSeconds`: the advice that a cooldown gives.
-/

namespace PuzzleContest

namespace Refusal

/-- The kinds of refusals. -/
inductive Kind where
  | internal
  | notFound
  | alreadyFinished
  | rateLimited
  | puzzleLocked
  | invalidStep
  | catalog
  | conflict
  | storage
deriving DecidableEq, Repr

/-- The status of an answer. -/
def Kind.status : Kind → Nat
  | .internal => 500
  | .notFound => 404
  | .alreadyFinished => 409
  | .rateLimited => 429
  | .puzzleLocked => 403
  | .invalidStep => 400
  | .catalog => 502
  | .conflict => 409
  | .storage => 503

/-- The detail of a refusal that states no other. -/
def Kind.standardDetail : Kind → String
  | .internal => "Internal error"
  | .notFound => "Not found"
  | .alreadyFinished => "Try already finished"
  | .rateLimited => "Rate limit exceeded"
  | .puzzleLocked => "Previous puzzle must be solved first"
  | .invalidStep => "Invalid step"
  | .catalog => "Failed to check solution"
  | .conflict => "Concurrent update, please retry"
  | .storage => "Storage unavailable"

end Refusal

/-- A refusal, by its cause. -/
inductive Refusal where
  | userNotFound
  | competitionNotFound
  | tryNotFound
  | catalogNotFound
  | catalogWithoutAddress
  | alreadyFinished
  /-- A cooldown has so many microseconds left. -/
  | rateLimited (remaining : Int)
  | puzzleLocked
  /-- The catalog has no check for this step. -/
  | unknownStep (step : Int)
  /-- Tries have a first and a second step only. -/
  | invalidStep (step : Int)
  | catalogUnreachable (reason : String)
  | catalogStatus (status : Int)
  | catalogUndecodable
  | catalogUnexpected
  /-- Waiting for another update of the same try took too long. -/
  | lockTimeout
  | conflict
  | storageUnavailable
  /-- A refusal of a kind with a detail of its own; an empty detail is none. -/
  | stated (kind : Refusal.Kind) (detail : Option String)
deriving DecidableEq, Repr

namespace Refusal

/-- The kind of a refusal. -/
def kind : Refusal → Kind
  | userNotFound | competitionNotFound | tryNotFound | catalogNotFound => .notFound
  | catalogWithoutAddress => .notFound
  | alreadyFinished => .alreadyFinished
  | rateLimited _ => .rateLimited
  | puzzleLocked => .puzzleLocked
  | unknownStep _ | invalidStep _ => .invalidStep
  | catalogUnreachable _ | catalogStatus _ | catalogUndecodable | catalogUnexpected => .catalog
  | lockTimeout | conflict => .conflict
  | storageUnavailable => .storage
  | stated kind _ => kind

/-- The text that a refusal states; an empty one gives way to the standard text of its kind. -/
def statedDetail : Refusal → Option String
  | userNotFound => some "User not found"
  | competitionNotFound => some "Competition not found"
  | tryNotFound => some "Try not found"
  | catalogNotFound => some "Catalog not found"
  | catalogWithoutAddress => some "Catalog has no address"
  | unknownStep step => some ("Invalid step " ++ toString step)
  | invalidStep step => some ("Invalid step " ++ toString step ++ ", expected 1 or 2")
  | catalogUnreachable reason => some ("Catalog request failed: " ++ reason)
  | catalogStatus status => some ("Catalog answered with status " ++ toString status)
  | catalogUndecodable => some "Failed to decode catalog response"
  | catalogUnexpected => some "Unexpected catalog response format"
  | lockTimeout => some "Timed out waiting for a concurrent update"
  | stated _ detail => detail
  | _ => none

/-- The detail of a refusal. -/
def detail (r : Refusal) : String :=
  match r.statedDetail with
  | none => r.kind.standardDetail
  | some text => if text = "" then r.kind.standardDetail else text

/-- The status of the answer that tells a refusal. -/
def status (r : Refusal) : Nat := r.kind.status

/-- Microseconds as whole seconds: rounded to a double, then cut toward zero. -/
def waitSeconds (remaining : Int) : Int :=
  Binary64.signedUnits (remaining < 0)
    (Binary64.roundUnits (remaining.natAbs * Binary64.one) 1000000 / Binary64.one)

/-- The body of the answer that tells a refusal. -/
def body (r : Refusal) : Json :=
  match r with
  | rateLimited remaining =>
    .object [("error", .text r.detail), ("wait_time_seconds", .int (waitSeconds remaining))]
  | _ => .object [("error", .text r.detail)]

end Refusal

end PuzzleContest
