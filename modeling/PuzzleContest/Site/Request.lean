import PuzzleContest.Json.Reader
import PuzzleContest.Text.Blank
import PuzzleContest.Text.Encoding
import PuzzleContest.Text.Percent
import PuzzleContest.Text.Split

/-!
# Requests

A request has a method, a target, headers and a body.  The target is percent-encoded and may hold a
query, which plays no part.

Main definitions:

- `pathOf`: the decoded path of a target.
- `Request.header?`, `Request.cookie?`: headers and cookies by name.
- `Request.readBody`: the JSON value in the body.
-/

namespace PuzzleContest.Site

/-- A request to the site. -/
structure Request where
  method : String
  target : String
  headers : List (String × String) := []
  body : String := ""
deriving DecidableEq, Repr

/-- The decoded path of a target. -/
def pathOf (target : String) : List Char :=
  Text.Percent.decode (target.toList.takeWhile (· ≠ '?'))

/-- Drop white space and separators from both ends. -/
def strip (s : List Char) : List Char := Text.trimBy Text.isBlankOrSeparator s

/-- A text with its ASCII letters in lower case. -/
def lower (s : String) : String := String.ofList (s.toList.map Char.toLower)

namespace Request

/-- The values of the headers of a name, which may be in any case. -/
def headersOf (r : Request) (name : String) : List String :=
  (r.headers.filter fun h => lower h.1 = name).map (·.2)

/-- The value of the first header of a name. -/
def header? (r : Request) (name : String) : Option String := (r.headersOf name).head?

/-! ## Cookies -/

/-- An octal digit from zero to a greatest one. -/
def octal? (greatest : Nat) (c : Char) : Option Nat :=
  let n := c.toNat - '0'.toNat
  if '0' ≤ c ∧ n ≤ greatest then some n else none

/-- A quoted text without its escapes: a backslash before three octal digits stands for their
character, and before any other character for that one. -/
def unescape : List Char → List Char
  | '\\' :: a :: b :: c :: rest =>
    match octal? 3 a, octal? 7 b, octal? 7 c with
    | some x, some y, some z => Char.ofNat (64 * x + 8 * y + z) :: unescape rest
    | _, _, _ => a :: unescape (b :: c :: rest)
  | '\\' :: a :: rest => a :: unescape rest
  | c :: rest => c :: unescape rest
  | [] => []

/-- A value without the quotes around it, if it has them. -/
def unquote (s : List Char) : List Char :=
  match s with
  | '"' :: rest =>
    if rest.getLast? = some '"' then unescape rest.dropLast else s
  | _ => s

/-- The name and the value of one cookie; a piece without a sign of equality has no name. -/
def cookieOf (piece : List Char) : List Char × List Char :=
  match Text.cutFirst? '=' piece with
  | some (name, value) => (strip name, unquote (strip value))
  | none => ([], unquote (strip piece))

/-- The cookies of a request. -/
def cookies (r : Request) : List (List Char × List Char) :=
  (r.headersOf "cookie").flatMap fun h =>
    ((Text.pieces ';' h.toList).map cookieOf).filter fun c => !c.1.isEmpty || !c.2.isEmpty

/-- The value of a cookie; the last one of a name counts. -/
def cookie? (r : Request) (name : String) : Option String :=
  ((r.cookies.reverse.find? fun c => c.1 = name.toList).map fun c => String.ofList c.2)

/-! ## Bodies -/

/-- Whether a content type is that of JSON data. -/
def isJsonType (contentType : String) : Bool :=
  let kind := strip ((lower contentType).toList.takeWhile (· ≠ ';'))
  match Text.pieces '/' kind with
  | [main, sub] =>
    main = "application".toList && (sub = "json".toList || "+json".toList.isSuffixOf sub)
  | _ => false

/-- What a body holds. -/
inductive Content where
  | empty
  /-- Data of a kind that is not read. -/
  | foreign
  | value (v : Json)

/-- Why a body cannot be read. -/
inductive Unreadable where
  /-- Its octets are no text. -/
  | notText
  | notJson (e : Json.ReadError)
deriving DecidableEq, Repr

/-- Whether the body is JSON data.  It is unless a type is given that says otherwise. -/
def hasJsonBody (r : Request) : Bool := (r.header? "content-type").elim true isJsonType

/-- The text of a body, whose first octets tell its encoding. -/
def bodyText? (r : Request) : Option String :=
  (Text.Encoding.decode? (r.body.toUTF8.toList.map (·.toNat))).map String.ofList

/-- What the body holds, or why it cannot be read, for a reader with so much room. -/
def readBody (room : Nat) (r : Request) : Except Unreadable Content :=
  if r.body = "" then .ok .empty
  else if r.hasJsonBody then
    match r.bodyText? with
    | none => .error .notText
    | some text => ((Json.read room text).map .value).mapError .notJson
  else .ok .foreign

end Request

end PuzzleContest.Site
