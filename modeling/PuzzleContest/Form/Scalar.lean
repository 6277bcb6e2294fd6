import PuzzleContest.Binary64.Decimal
import PuzzleContest.Form
import PuzzleContest.Moment.Text

/-!
# The scalar fields of forms

Fields are read generously: an integer may be written as a boolean, as a double without a fraction
or as text, a number as text, and a moment in several ways.  Texts are texts only.
-/

namespace PuzzleContest.Form

/-- A text, whose halves of characters need not be paired. -/
def text : Json → Checked Json.Spelling
  | .text s => .ok s
  | .unpaired s => .ok (.ragged s)
  | _ => .reject .textType

/-- A text of characters that is not empty. -/
def nonemptyText : Json → Checked String
  | .text s => if s = "" then .reject .textTooShort else .ok s
  | .unpaired _ => .reject .textUnpaired
  | _ => .reject .textType

/-! ## Integers as text -/

/--
An integer in its standard form: perhaps a minus sign, then a zero alone or digits that do not start
with one.  A text that starts with too many characters of that form is refused for its size,
whatever follows them.
-/
def plainInteger (s : List Char) : Except Complaint.Kind Int :=
  let negative := s.head? = some '-'
  let body := if negative then s.drop 1 else s
  let digits := body.takeWhile Char.isDigit
  let rest := body.dropWhile Char.isDigit
  if digits.head? = some '0' then
    if digits.length = 1 ∧ rest = [] then .ok 0 else .error .integerText
  else if Text.digitLimit < s.length - rest.length then .error .integerSize
  else if digits ≠ [] ∧ rest = [] then .ok (Text.signed negative (Binary64.digitsValue digits))
  else .error .integerText

/--
The text from its first character that matters on, where `last` is the padding character just
before it: zeros and underscores do not matter, before a point one of them does, and of nothing
but padding the last one stays.
-/
def afterPadding (last : Char) : List Char → Option (List Char)
  | [] => some [last]
  | c :: rest =>
    if c = '0' ∨ c = '_' then afterPadding c rest
    else if c.isDigit ∨ c = '-' then some (c :: rest)
    else if c = '.' then some (last :: c :: rest)
    else none

/-- Drop the zeros that lead a text; `none` if no digit leads it. -/
def dropLeadingZeros : List Char → Option (List Char)
  | [] => none
  | c :: rest =>
    if c = '0' then afterPadding c rest else if c.isDigit then some (c :: rest) else none

/-- Drop a point and one or more zeros from the end. -/
def dropZeroFraction (s : List Char) : List Char :=
  match s.dropWhile (· ≠ '.') with
  | '.' :: '0' :: zeros => if zeros.all (· = '0') then s.takeWhile (· ≠ '.') else s
  | _ => s

/-- Whether underscores stand alone and inside a text only. -/
def underscoresInside : List Char → Bool
  | [] => true
  | ['_'] => false
  | '_' :: '_' :: _ => false
  | _ :: rest => underscoresInside rest

/-- Drop single underscores from inside a text; `none` where others stand. -/
def dropUnderscores (s : List Char) : Option (List Char) :=
  if s.head? ≠ some '_' ∧ underscoresInside s then some (s.filter (· ≠ '_')) else none

/--
The standard form of a generously written integer: without white space around it, a plus sign,
leading zeros, a zero fraction and underscores.  A minus sign counts also after leading zeros.
-/
def cleanInteger (s : List Char) : Option (List Char) :=
  let trimmed := Text.trim s
  let unsigned := if trimmed.head? = some '+' then trimmed.drop 1 else trimmed
  let bare :=
    if unsigned.head? = some '-' then
      if trimmed.head? = some '+' then none
      else (dropLeadingZeros (unsigned.drop 1)).map ('-' :: ·)
    else dropLeadingZeros unsigned
  (bare.map dropZeroFraction).bind dropUnderscores

/-- Read an integer from text: in its standard form, or else after cleaning. -/
def integerOfText (s : List Char) : Checked Int :=
  let found :=
    match plainInteger s with
    | .error .integerText => ((cleanInteger s).map plainInteger).getD (.error .integerText)
    | found => found
  match found with
  | .ok n => .ok n
  | .error kind => .reject kind

/-! ## Numbers -/

/-- Doubles are taken for integers only strictly between these bounds. -/
def doubleBound : Int := Binary64.twoTo 63

/-- Read an integer from a double. -/
def integerOfDouble (x : Binary64) : Checked Int :=
  if !x.isFinite then .reject .notFinite
  else
    match x.toInt? with
    | none => .reject .integerFraction
    | some n => if -doubleBound < n ∧ n < doubleBound then .ok n else .reject .integerSize

/-- An integer. -/
def integer : Json → Checked Int
  | .int n => .ok n
  | .bool b => .ok (if b then 1 else 0)
  | .float x => integerOfDouble x
  | .text s => integerOfText s.toList
  | .unpaired _ => .reject .textUnpaired
  | _ => .reject .integerType

/-- An integer that is not negative. -/
def natural (v : Json) : Checked Int :=
  (integer v).andThen fun n => if 0 ≤ n then .ok n else .reject .belowLeast

/-- A number as text with white space around it, or with single underscores inside it. -/
def numberOfText? (s : List Char) : Option Binary64 :=
  (Binary64.ofNumberText? (Text.trim s)).or ((dropUnderscores s).bind Binary64.ofNumberText?)

/-- A number. -/
def number : Json → Checked Binary64
  | .float x => .ok x
  | .int n => (Binary64.ofInt? n).elim (.reject .numberType) .ok
  | .bool b => .ok (Binary64.ofInt (if b then 1 else 0))
  | .text s => (numberOfText? s.toList).elim (.reject .numberText) .ok
  | _ => .reject .numberType

/-- A moment. -/
def moment (v : Json) : Checked Moment :=
  match Moment.ofJson? v with
  | .ok m => .ok m
  | .error .kind => .reject .momentType
  | .error .text => .reject .momentText
  | .error .range => .reject .momentNumber

/-- The words for on and off, in lower case. -/
def switchWord? (s : String) : Option Bool :=
  if ["1", "on", "t", "true", "y", "yes"].contains s then some true
  else if ["0", "off", "f", "false", "n", "no"].contains s then some false
  else none

/-- A switch as an integer: zero or one.  Integers of more than 64 bits are not even of the kind. -/
def switchOfInteger (n : Int) : Checked Bool :=
  if n = 0 then .ok false
  else if n = 1 then .ok true
  else if -doubleBound ≤ n ∧ n < doubleBound then .reject .switchText
  else .reject .switchType

/-- A switch: a boolean, one or zero, or a word. -/
def switch : Json → Checked Bool
  | .bool b => .ok b
  | .int n => switchOfInteger n
  | .float x =>
    match integerOfDouble x with
    | .ok n => switchOfInteger n
    | .bad _ => .reject .switchType
  | .text s =>
    (switchWord? (String.ofList (s.toList.map Char.toLower))).elim (.reject .switchText) .ok
  | _ => .reject .switchType

end PuzzleContest.Form
