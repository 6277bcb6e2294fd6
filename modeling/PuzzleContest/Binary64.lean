/-!
# Double-precision numbers as exact multiples of the least one

A finite double is a sign and a whole number of *units*, the unit being `2 ^ -1074`, the least
positive double.  Comparing two magnitudes is then comparing two natural numbers, and rounding is
a statement about natural numbers only: keep the leading 53 bits, the nearest neighbour, an exact
half going to the even one.

Main definitions:

- `roundUnits`: the nearest double to a quotient, in units.
- `ofQuotient`, `ofInt`, `ofInt?`, `ofDecimal`: the doubles nearest to exact values.
- `sub`, `abs`, `lt`, `intLt`: the arithmetic and the comparisons the library needs.
-/

namespace PuzzleContest

/-- A double: a signed number of units of `2 ^ -1074`, an infinity, or not a number. -/
inductive Binary64 where
  | finite (negative : Bool) (units : Nat)
  | infinite (negative : Bool)
  | nan
deriving DecidableEq, Repr

namespace Binary64

instance : Inhabited Binary64 := ⟨.finite false 0⟩

/-- A power of two. -/
def twoTo (n : Nat) : Nat := Nat.pow 2 n

/-- A power of ten. -/
def tenTo (n : Nat) : Nat := Nat.pow 10 n

/-- The number of units in one. -/
def one : Nat := twoTo 1074

/-- The first number of units that no finite double reaches, `2 ^ 1024`. -/
def limit : Nat := twoTo 2098

/-! ## Rounding -/

/-- The whole number nearest to `num / den`, an exact half going to the even neighbour. -/
def nearest (num den : Nat) : Nat :=
  let q := num / den
  let r := num % den
  if 2 * r < den then q
  else if den < 2 * r then q + 1
  else if q % 2 = 0 then q else q + 1

/-- How many low bits of `q` lie below its leading 53. -/
def spareBits (q : Nat) : Nat := q.log2 - 52

/-- The units of the double nearest to `num / den` units, were there no largest double. -/
def roundUnits (num den : Nat) : Nat :=
  let grain := twoTo (spareBits (num / den))
  nearest num (den * grain) * grain

/-- The double of a sign and a number of units, infinite from `limit` on. -/
def ofUnits (negative : Bool) (units : Nat) : Binary64 :=
  if units < limit then .finite negative units else .infinite negative

/-- The double nearest to `num / den`, with the given sign. -/
def ofQuotient (negative : Bool) (num den : Nat) : Binary64 :=
  ofUnits negative (roundUnits (num * one) den)

/-- The double nearest to an integer. -/
def ofInt (n : Int) : Binary64 := ofQuotient (n < 0) n.natAbs 1

/-- The double itself, if it is finite. -/
def finite? : Binary64 → Option Binary64
  | .finite negative units => some (.finite negative units)
  | _ => none

/-- The double nearest to an integer, if it is finite. -/
def ofInt? (n : Int) : Option Binary64 := (ofInt n).finite?

/--
The double nearest to `digits * 10 ^ exponent`.  Exponents far outside the range of doubles are
answered without computing the power.
-/
def ofDecimal (negative : Bool) (digits : Nat) (exponent : Int) : Binary64 :=
  let magnitude : Int := (Nat.toDigits 10 digits).length + exponent
  if digits = 0 then .finite negative 0
  else if 310 < magnitude then .infinite negative
  else if magnitude < -330 then .finite negative 0
  else if 0 ≤ exponent then ofQuotient negative (digits * tenTo exponent.toNat) 1
  else ofQuotient negative digits (tenTo (-exponent).toNat)

/-! ## Reading a double as an exact value -/

/-- The value of a finite double in units, with its sign. -/
def signedUnits (negative : Bool) (units : Nat) : Int :=
  if negative then -(units : Int) else units

/-- The integer part of a finite double, cut toward zero; `none` for the others. -/
def truncate? : Binary64 → Option Int
  | .finite negative units => some (signedUnits negative (units / one))
  | _ => none

/-- The integer that a finite double is equal to, if there is one. -/
def toInt? : Binary64 → Option Int
  | .finite negative units =>
    if units % one = 0 then some (signedUnits negative (units / one)) else none
  | _ => none

/-- The greatest integer that a finite double is not below. -/
def floor? : Binary64 → Option Int
  | .finite negative units => some ((signedUnits negative units).fdiv one)
  | _ => none

/-- The integer nearest to a finite double, a half going away from zero. -/
def round? : Binary64 → Option Int
  | .finite negative units => some (signedUnits negative ((2 * units + one) / (2 * one)))
  | _ => none

/-- Whether the double is finite. -/
def isFinite : Binary64 → Bool
  | .finite _ _ => true
  | _ => false

/-! ## Arithmetic and order -/

/-- The magnitude. -/
def abs : Binary64 → Binary64
  | .finite _ units => .finite false units
  | .infinite _ => .infinite false
  | .nan => .nan

/-- The difference of two doubles: exact, then rounded once. -/
def sub : Binary64 → Binary64 → Binary64
  | .finite s m, .finite t n =>
    let d := signedUnits s m - signedUnits t n
    ofUnits (d < 0) (roundUnits d.natAbs 1)
  | .finite _ _, .infinite t => .infinite (!t)
  | .infinite s, .finite _ _ => .infinite s
  | .infinite s, .infinite t => if s = t then .nan else .infinite s
  | _, _ => .nan

/-- The double nearest to a double times `num / den`. -/
def scale (x : Binary64) (num den : Nat) : Binary64 :=
  match x with
  | .finite negative units => ofUnits negative (roundUnits (units * num) den)
  | special => special

/-- The double without the sign of a zero. -/
def dropZeroSign : Binary64 → Binary64
  | .finite _ 0 => .finite false 0
  | x => x

/-- Whether one double is below another; never with a value that is not a number. -/
def lt : Binary64 → Binary64 → Bool
  | .finite s m, .finite t n => signedUnits s m < signedUnits t n
  | .finite _ _, .infinite t => !t
  | .infinite s, .finite _ _ => s
  | .infinite s, .infinite t => s && !t
  | _, _ => false

/-- Whether an integer of any size is below a double, compared exactly. -/
def intLt (n : Int) : Binary64 → Bool
  | .finite s m => n * one < signedUnits s m
  | .infinite s => !s
  | .nan => false

end Binary64

end PuzzleContest
