import PuzzleContest.Binary64
import PuzzleContest.Text.Integer

/-!
# Doubles as decimal text

A decimal has a sign, digits with perhaps a point among or beside them, and perhaps an exponent.
The double nearest to it is meant, an infinity where it lies beyond the largest double.

Main definitions:

- `Binary64.ofDecimalText?`: the double of a decimal.
- `Binary64.ofNumberText?`: the same, with names for the infinities and for the value that is no
  number.
-/

namespace PuzzleContest.Binary64

/-- The number that ASCII digits denote. -/
def digitsValue (digits : List Char) : Nat :=
  digits.foldl (fun n c => 10 * n + (c.toNat - '0'.toNat)) 0

/-- The exponent after its mark, as the whole rest of a text; no rest means zero. -/
def exponent? : List Char → Option Int
  | [] => some 0
  | c :: rest =>
    if c = 'e' ∨ c = 'E' then
      let (negative, digits) := Text.splitSign rest
      if digits.isEmpty || !digits.all Char.isDigit then none
      else some (Text.signed negative (digitsValue digits))
    else none

/-- A decimal whose sign has been read. -/
def ofUnsignedText? (negative : Bool) (s : List Char) : Option Binary64 :=
  let whole := s.takeWhile Char.isDigit
  let rest := s.dropWhile Char.isDigit
  let (fraction, rest) := match rest with
    | '.' :: more => (more.takeWhile Char.isDigit, more.dropWhile Char.isDigit)
    | _ => ([], rest)
  if whole.isEmpty && fraction.isEmpty then none
  else
    (exponent? rest).map fun e =>
      ofDecimal negative (digitsValue (whole ++ fraction)) (e - fraction.length)

/-- A decimal as the whole of a text. -/
def ofDecimalText? (s : List Char) : Option Binary64 :=
  let (negative, rest) := Text.splitSign s
  ofUnsignedText? negative rest

/-- A decimal, or the name of a special value in any case, as the whole of a text. -/
def ofNumberText? (s : List Char) : Option Binary64 :=
  let (negative, rest) := Text.splitSign s
  match rest.map Char.toLower with
  | ['i', 'n', 'f'] | ['i', 'n', 'f', 'i', 'n', 'i', 't', 'y'] => some (.infinite negative)
  | ['n', 'a', 'n'] => some .nan
  | _ => ofUnsignedText? negative rest

end PuzzleContest.Binary64
