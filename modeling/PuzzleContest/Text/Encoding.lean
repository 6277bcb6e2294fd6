/-!
# Unicode encodings

Octets are read as text in the encoding that their first zeros betray: a text starts with a
character of ASCII, which fills one octet of its unit and leaves the others zero.  A mark of the
byte order is dropped from the eight-bit encoding.

Main definitions:

- `Encoding.ofOctets`: the encoding of a text.
- `Encoding.decode?`: its characters.
-/

namespace PuzzleContest.Text

/-- The encodings, by the octets of a unit. -/
inductive Encoding where
  | eightBit
  | sixteenBit (bigEndian : Bool)
  | thirtyTwoBit (bigEndian : Bool)
deriving DecidableEq, Repr

namespace Encoding

/-- The encoding that the first octets betray. -/
def ofOctets : List Nat → Encoding
  | [0, _] => sixteenBit true
  | [_, 0] => sixteenBit false
  | a :: b :: c :: d :: _ =>
    if a = 0 then if b = 0 then thirtyTwoBit true else sixteenBit true
    else if b = 0 then if c = 0 ∧ d = 0 then thirtyTwoBit false else sixteenBit false
    else eightBit
  | _ => eightBit

/-- The character that stands for half of a pair. -/
def replacement : Char := '\ufffd'

/-- The characters of octets in the eight-bit encoding; `none` if they are ill-formed. -/
def decodeEight? (octets : List Nat) : Option (List Char) :=
  let bytes : ByteArray := ⟨(octets.map UInt8.ofNat).toArray⟩
  (String.fromUTF8? bytes).map String.toList

/-- The units of octets in pairs; `none` if one is left over. -/
def units? (bigEndian : Bool) : List Nat → Option (List Nat)
  | [] => some []
  | [_] => none
  | a :: b :: rest =>
    (units? bigEndian rest).map ((if bigEndian then 256 * a + b else 256 * b + a) :: ·)

/-- The character of a code, with the replacement character for half of one. -/
def ofCode (n : Nat) : Char := if 0xD800 ≤ n ∧ n < 0xE000 then replacement else Char.ofNat n

/-- The characters of sixteen-bit units.  Two halves that follow each other stand for one. -/
def ofUnits : List Nat → List Char
  | [] => []
  | [u] => [ofCode u]
  | u :: v :: rest =>
    if 0xD800 ≤ u ∧ u < 0xDC00 ∧ 0xDC00 ≤ v ∧ v < 0xE000 then
      Char.ofNat (0x10000 + (u - 0xD800) * 0x400 + (v - 0xDC00)) :: ofUnits rest
    else ofCode u :: ofUnits (v :: rest)

/-- The characters of octets in fours; `none` if some are left over or stand for no character. -/
def decodeThirtyTwo? (bigEndian : Bool) : List Nat → Option (List Char)
  | [] => some []
  | a :: b :: c :: d :: rest =>
    let n := if bigEndian then ((a * 256 + b) * 256 + c) * 256 + d
      else ((d * 256 + c) * 256 + b) * 256 + a
    if n < 0x110000 then
      (decodeThirtyTwo? bigEndian rest).map (ofCode n :: ·)
    else none
  | _ => none

/-- A text without the mark of its byte order. -/
def unmarked : List Char → List Char
  | '\ufeff' :: rest => rest
  | s => s

/-- The characters of octets in the encoding that they betray; `none` if they are ill-formed. -/
def decode? (octets : List Nat) : Option (List Char) :=
  match ofOctets octets with
  | eightBit => (decodeEight? octets).map unmarked
  | sixteenBit bigEndian => (units? bigEndian octets).map ofUnits
  | thirtyTwoBit bigEndian => decodeThirtyTwo? bigEndian octets

end Encoding

end PuzzleContest.Text
