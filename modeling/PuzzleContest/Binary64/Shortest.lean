import PuzzleContest.Binary64

/-!
# The shortest decimal of a double

Every finite double stands for an interval of reals: those that round to it.  Its *shortest
decimal* has the fewest digits of all decimals in that interval and is the nearest of those.  The
search walks the grids `10 ^ (k - 1)`, `10 ^ (k - 2)`, … below the value and tries its two
neighbours on each, in exact natural arithmetic.

Main definitions:

- `readsBack`: whether a decimal rounds to the double.
- `shortest`: the digits and the exponent of the shortest decimal.
- `text`: how numbers are written in the library's own output.
-/

namespace PuzzleContest.Binary64

/-- A decimal `digits * 10 ^ exponent`. -/
structure Decimal where
  digits : Nat
  exponent : Int
deriving DecidableEq, Repr

/-- Compare `a * 10 ^ i` with `n / den`, exactly. -/
def compareScaled (a : Nat) (i : Int) (n den : Nat) : Ordering :=
  compare (a * tenTo i.toNat * den) (n * tenTo (-i).toNat)

/--
Whether a decimal lies among the reals that round to the double of `units`, with an exact half
going to the even neighbour.  The gap below a power of two is half as wide as the gap above it.
-/
def readsBack (units : Nat) (d : Decimal) : Bool :=
  let grain := twoTo (spareBits units)
  let mantissa := units / grain
  let below := if mantissa = twoTo 52 ∧ 1 < grain then grain else 2 * grain
  let low := compareScaled d.digits d.exponent (4 * units - below) (4 * one)
  let high := compareScaled d.digits d.exponent (4 * units + 2 * grain) (4 * one)
  let closed := mantissa % 2 = 0
  (low = .gt ∨ (closed ∧ low = .eq)) ∧ (high = .lt ∨ (closed ∧ high = .eq))

/-- The least `k` with value below `10 ^ k`: an estimate from the binary logarithm, corrected. -/
def decimalScale (units : Nat) : Int :=
  let estimate : Int := (((units.log2 : Int) - 1074) * 30103).fdiv 100000 - 1
  let candidates := [estimate, estimate + 1, estimate + 2]
  (candidates.find? fun k => compareScaled 1 k units one = .gt).getD (estimate + 3)

/-- The two neighbours of the value on the grid `10 ^ exponent`, the lower one first. -/
def gridNeighbours (units : Nat) (exponent : Int) : Decimal × Decimal :=
  let low := units * tenTo (-exponent).toNat / (one * tenTo exponent.toNat)
  (⟨low, exponent⟩, ⟨low + 1, exponent⟩)

/-- The decimal chosen on one grid: of two that read back the nearer, on a tie the even one. -/
def onGrid? (units : Nat) (exponent : Int) : Option Decimal :=
  let (low, high) := gridNeighbours units exponent
  match readsBack units low, readsBack units high with
  | true, true =>
    match compareScaled (2 * low.digits + 1) exponent (2 * units) one with
    | .gt => some low
    | .lt => some high
    | .eq => if low.digits % 2 = 0 then some low else some high
  | true, false => some low
  | false, true => some high
  | false, false => none

/-- Move the factors of ten among the digits into the exponent. -/
def Decimal.strip (d : Decimal) : Decimal :=
  if h : d.digits ≠ 0 ∧ d.digits % 10 = 0 then
    have : d.digits / 10 < d.digits := Nat.div_lt_self (Nat.pos_of_ne_zero h.1) (by decide)
    Decimal.strip ⟨d.digits / 10, d.exponent + 1⟩
  else d
termination_by d.digits

/-- The shortest decimal of a positive number of units.  Seventeen digits always suffice. -/
def shortest (units : Nat) : Decimal :=
  let scale := decimalScale units
  let found := (List.range 17).findSome? fun n => onGrid? units (scale - (n + 1 : Nat))
  (found.getD (gridNeighbours units (scale - 17)).1).strip

/-! ## Layout -/

/-- Written positionally from this decimal exponent of the leading digit on. -/
def positionalFrom : Int := -4

/-- Written positionally below this decimal exponent of the leading digit. -/
def positionalBelow : Int := 16

/-- The exponent part: a sign and at least two digits. -/
def exponentText (e : Int) : String :=
  let digits := toString e.natAbs
  "e" ++ (if e < 0 then "-" else "+") ++ (if digits.length < 2 then "0" ++ digits else digits)

/-- Lay out the digits of a decimal: positional in the middle range, scientific outside of it. -/
def Decimal.text (d : Decimal) : String :=
  let digits := Nat.toDigits 10 d.digits
  let leading : Int := d.exponent + digits.length - 1
  if positionalFrom ≤ leading ∧ leading < positionalBelow then
    if 0 ≤ d.exponent then
      String.ofList (digits ++ List.replicate d.exponent.toNat '0') ++ ".0"
    else if 0 ≤ leading then
      String.ofList (digits.take (leading.toNat + 1)) ++ "." ++
        String.ofList (digits.drop (leading.toNat + 1))
    else "0." ++ String.ofList (List.replicate ((-leading).toNat - 1) '0' ++ digits)
  else
    let fraction := digits.drop 1
    String.ofList (digits.take 1) ++
      (if fraction.isEmpty then "" else "." ++ String.ofList fraction) ++ exponentText leading

/--
The text of a double: the fewest digits that identify it, positional for decimal exponents from
`-4` to `15`, otherwise scientific with a signed exponent of at least two digits.
-/
def text : Binary64 → String
  | .finite negative 0 => if negative then "-0.0" else "0.0"
  | .finite negative units => (if negative then "-" else "") ++ (shortest units).text
  | .infinite negative => if negative then "-inf" else "inf"
  | .nan => "nan"

end PuzzleContest.Binary64
