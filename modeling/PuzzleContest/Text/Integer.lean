import PuzzleContest.Text.Blank
import PuzzleContest.Text.DecimalDigit

/-!
# Integers as text

Integers are written in decimal with a leading minus sign when negative.  The generous reader
`readInteger?` accepts more than is written: white space around, a plus sign, single underscores
between digits, and the digits of every script.
-/

namespace PuzzleContest.Text

/-- No reader accepts more digits than this, and no writer gives more. -/
def digitLimit : Nat := 4300

/-- Whether an integer has few enough digits to be written. -/
def isWritable (n : Int) : Bool := (Nat.toDigits 10 n.natAbs).length ≤ digitLimit

/-- The decimal text of an integer. -/
def integerText (n : Int) : List Char :=
  if n < 0 then '-' :: Nat.toDigits 10 n.natAbs else Nat.toDigits 10 n.natAbs

/--
Digits with single underscores between them, by a digit reader: the values in order.  Two
underscores in a row, or one at an end, are refused.
-/
def underscoredDigits? (value? : Char → Option Nat) : List Char → Option (List Nat)
  | [] => none
  | [c] => (value? c).map ([·])
  | c :: '_' :: rest => do return (← value? c) :: (← underscoredDigits? value? rest)
  | c :: rest => do return (← value? c) :: (← underscoredDigits? value? rest)

/-- The number that digits in order denote. -/
def digitsNumber (digits : List Nat) : Nat := digits.foldl (fun n d => 10 * n + d) 0

/-- Split an optional sign off the front: whether it is a minus, and the rest. -/
def splitSign : List Char → Bool × List Char
  | '-' :: rest => (true, rest)
  | '+' :: rest => (false, rest)
  | rest => (false, rest)

/-- The integer with a sign and a magnitude. -/
def signed (negative : Bool) (magnitude : Nat) : Int :=
  if negative then -(magnitude : Int) else magnitude

/-- Read an integer generously; `none` if the text is no integer or has too many digits. -/
def readInteger? (s : List Char) : Option Int := do
  let (negative, rest) := splitSign (trim s)
  let digits ← underscoredDigits? digitValue? rest
  if digitLimit < digits.length then none else some (signed negative (digitsNumber digits))

end PuzzleContest.Text
