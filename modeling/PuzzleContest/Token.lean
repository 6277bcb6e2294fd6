import PuzzleContest.Binary64
import PuzzleContest.Text.Integer
import PuzzleContest.Text.Split
import PuzzleContest.Token.Base64
import PuzzleContest.Token.Sha256

/-!
# Session tokens

A token names a user and the second it was made in, under a signature: the payload `user:time` in
base 64, a dot, and the keyed digest of the payload in lower-case hexadecimal.

Main definitions:

- `create?`: the token of a user at a clock reading.
- `verify`: the user that a token speaks for, if it is signed and not too old.
-/

namespace PuzzleContest.Token

/-- The settings under which tokens are made and checked. -/
structure Policy where
  secret : String := "change-me-in-production-use-env"
  /-- The greatest age in seconds. -/
  maxAge : Int := 1209600

/-- Why a check could not be carried out at all. -/
inductive Fault where
  /-- The signature part of the token has characters outside ASCII and cannot be compared. -/
  | signatureNotAscii
  /-- The time of the token lies beyond the range of doubles. -/
  | timeTooLarge
deriving DecidableEq, Repr

/-- The bytes of a text. -/
def bytes (s : List Char) : List UInt8 := (String.ofList s).toUTF8.toList

/-- The text of some bytes, if they are well-formed UTF-8. -/
def text? (bs : List UInt8) : Option (List Char) :=
  (String.fromUTF8? ⟨bs.toArray⟩).map String.toList

/-- The signature of a payload under a secret. -/
def signature (secret : String) (payload : List UInt8) : List Char :=
  Sha256.hex (Sha256.keyedDigest (bytes secret.toList) payload)

/-- The payload that names a user and a time in seconds. -/
def payload (user : String) (time : Int) : List UInt8 :=
  bytes (user.toList ++ ':' :: Text.integerText time)

/-- A payload and its signature as one text. -/
def sign (secret : String) (payload : List UInt8) : List Char :=
  Base64.encode payload ++ '.' :: signature secret payload

/-- The token of a user made in a given second. -/
def createAt (secret user : String) (time : Int) : String :=
  String.ofList (sign secret (payload user time))

/-- The token of a user at a clock reading; the reading must be finite. -/
def create? (secret user : String) (now : Binary64) : Option String :=
  now.truncate?.map (createAt secret user)

/-- Whether all characters are ASCII. -/
def isAscii (s : List Char) : Bool := s.all fun c => c.toNat < 128

/-- The payload hidden in the encoded part of a token, if it can be read. -/
def decodePayload? (encoded : List Char) : Option (List UInt8) :=
  if isAscii encoded then Base64.decode (Base64.complete encoded) else none

/-- The user and the time that a payload names: the cut is at the last colon. -/
def readPayload? (payload : List UInt8) : Option (String × Int) := do
  let (user, time) ← Text.cutLast? ':' (← text? payload)
  if user.isEmpty then none else
  return (String.ofList user, ← Text.readInteger? time)

/-- Whether a token made at `time` has passed the greatest age. -/
def isExpired (maxAge : Int) (now : Binary64) (time : Int) : Except Fault Bool :=
  (Binary64.ofInt? time).elim (.error .timeTooLarge) fun made =>
    .ok (Binary64.intLt maxAge (now.sub made).abs)

/-- The user that signed text speaks for, given its two parts. -/
def verifyParts (policy : Policy) (now : Binary64) (encoded signed : List Char) :
    Except Fault (Option String) :=
  match decodePayload? encoded with
  | none => .ok none
  | some payload =>
    if !isAscii signed then .error .signatureNotAscii
    else if signature policy.secret payload ≠ signed then .ok none
    else
      match readPayload? payload with
      | none => .ok none
      | some (user, time) => do
        if ← isExpired policy.maxAge now time then return none else return some user

/-- The user that a token speaks for: the cut between payload and signature is the last dot. -/
def verify (policy : Policy) (now : Binary64) (token : Option String) :
    Except Fault (Option String) :=
  match token.bind fun t => Text.cutLast? '.' t.toList with
  | none => .ok none
  | some (encoded, signed) => verifyParts policy now encoded signed

end PuzzleContest.Token
