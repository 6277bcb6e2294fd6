import PuzzleContest.Catalog
import PuzzleContest.Refusal

/-!
# Failures and storage faults

An operation of a contest that comes to no result has failed: it was refused, or something broke.
The storage breaks in a few ways, of which most are refusals to the outside.

Main definitions:

- `Failure`: why an operation has no result.
- `Fault.failure`: how a storage fault looks from outside.
- `Schedule`: the faults that are to come, by occasion.
-/

namespace PuzzleContest

/-- Why an operation has no result. -/
inductive Failure where
  | refused (r : Refusal)
  /-- There is a try of this key already. -/
  | duplicate
  | crashed (crash : Catalog.Crash)
  | scoreTooLarge
  /-- A moment lies past the calendar. -/
  | pastCalendar
  /-- An integer has too many bits for the store. -/
  | integerTooWide
  /-- A text cannot be stored or sent. -/
  | textUnpaired
  /-- A duration of so many days is too long. -/
  | durationTooLong (days : Int)
deriving DecidableEq, Repr

/-- Whether an operation has failed because of another one on the same try. -/
def Failure.isConflict : Failure → Bool
  | .refused r => r.kind = .conflict
  | _ => false

/-- The failure that a question without an answer is. -/
def Failure.ofTrouble : Catalog.Trouble → Failure
  | .refused r => .refused r
  | .crashed crash => .crashed crash

/-- The ways in which the storage breaks. -/
inductive Fault where
  /-- The database does not work; it tells a message, and perhaps codes. -/
  | operational (message : String) (codes : List String)
  /-- A row of the same key exists. -/
  | duplicate
  /-- Any other trouble of the database. -/
  | general
  /-- Something broke that is no trouble of the database. -/
  | crash (message : String)
deriving DecidableEq, Repr

namespace Fault

/-- The code of a database that waited for a lock in vain. -/
def lockCode : String := "55P03"

/-- What a database without codes says when it waited for a lock in vain. -/
def lockPhrase : String := "database is locked"

/-- Whether a text occurs inside another. -/
def occurs (phrase : List Char) : List Char → Bool
  | [] => phrase.isEmpty
  | c :: rest => phrase.isPrefixOf (c :: rest) || occurs phrase rest

/-- Whether the database waited for a lock in vain: the first code that is not empty says so, or
the message does. -/
def isLockWait (message : String) (codes : List String) : Bool :=
  codes.find? (· ≠ "") = some lockCode || occurs lockPhrase.toList message.toList

/-- How a fault looks from outside. -/
def failure : Fault → Failure
  | operational message codes =>
    .refused (if isLockWait message codes then .lockTimeout else .storageUnavailable)
  | duplicate => .duplicate
  | general => .refused .storageUnavailable
  | crash message => .crashed (.runtime message)

end Fault

/-- The faults to come.  For each occasion a list says, time after time, whether something breaks;
after its end nothing does. -/
structure Schedule where
  /-- When a session is opened. -/
  sessions : List (Option Fault) := []
  /-- When a try is looked up. -/
  finds : List (Option Fault) := []
  /-- When changes are committed. -/
  commits : List (Option Fault) := []
  /-- Whether a look-up that does not break overlooks the try. -/
  hidden : List Bool := []
deriving DecidableEq, Repr

end PuzzleContest
