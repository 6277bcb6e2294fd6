/-!
# Base 64, written strictly and read leniently

Writing uses the alphabet with `-` and `_` and no padding.  Reading accepts both alphabets, skips
every character outside of them, and stops at a padding that completes a group.

-/

namespace PuzzleContest.Base64

/-- The character of a value below 64. -/
def symbol (n : Nat) : Char :=
  if n < 26 then Char.ofNat ('A'.toNat + n)
  else if n < 52 then Char.ofNat ('a'.toNat + (n - 26))
  else if n < 62 then Char.ofNat ('0'.toNat + (n - 52))
  else if n = 62 then '-' else '_'

/-- The value of a character of either alphabet. -/
def value? (c : Char) : Option Nat :=
  if 'A' ≤ c ∧ c ≤ 'Z' then some (c.toNat - 'A'.toNat)
  else if 'a' ≤ c ∧ c ≤ 'z' then some (c.toNat - 'a'.toNat + 26)
  else if '0' ≤ c ∧ c ≤ '9' then some (c.toNat - '0'.toNat + 52)
  else if c = '-' ∨ c = '+' then some 62
  else if c = '_' ∨ c = '/' then some 63
  else none

/-- Bytes in groups of three become four characters; a rest of one or two becomes two or three. -/
def encode : List UInt8 → List Char
  | [] => []
  | [a] => [symbol (a.toNat / 4), symbol (a.toNat % 4 * 16)]
  | [a, b] =>
    [symbol (a.toNat / 4), symbol (a.toNat % 4 * 16 + b.toNat / 16), symbol (b.toNat % 16 * 4)]
  | a :: b :: c :: rest =>
    symbol (a.toNat / 4) :: symbol (a.toNat % 4 * 16 + b.toNat / 16) ::
      symbol (b.toNat % 16 * 4 + c.toNat / 64) :: symbol (c.toNat % 64) :: encode rest

/-- The whole bytes in a group of values, the bits that do not fill a byte being dropped. -/
def groupBytes : List Nat → List UInt8
  | [p, q] => [UInt8.ofNat (p * 4 + q / 16)]
  | [p, q, r] => [UInt8.ofNat (p * 4 + q / 16), UInt8.ofNat (q % 16 * 16 + r / 4)]
  | [p, q, r, s] =>
    [UInt8.ofNat (p * 4 + q / 16), UInt8.ofNat (q % 16 * 16 + r / 4), UInt8.ofNat (r % 4 * 64 + s)]
  | _ => []

/--
Read on with the values of an unfinished group and the number of padding characters since its last
value.  Padding counts once a group has two values, and reading stops when both together are four.
Ending inside a group is a failure.
-/
def decodeFrom (group : List Nat) (pads : Nat) : List Char → Option (List UInt8)
  | [] => if group.isEmpty then some [] else none
  | c :: rest =>
    if c = '=' then
      if 2 ≤ group.length then
        if 4 ≤ group.length + (pads + 1) then some (groupBytes group)
        else decodeFrom group (pads + 1) rest
      else decodeFrom group pads rest
    else
      match value? c with
      | none => decodeFrom group pads rest
      | some v =>
        if group.length = 3 then (decodeFrom [] 0 rest).map (groupBytes (group ++ [v]) ++ ·)
        else decodeFrom (group ++ [v]) 0 rest

/-- Read leniently from the start. -/
def decode (s : List Char) : Option (List UInt8) := decodeFrom [] 0 s

/-- Fill up to a multiple of four characters with padding. -/
def complete (s : List Char) : List Char :=
  if s.length % 4 = 0 then s else s ++ List.replicate (4 - s.length % 4) '='

end PuzzleContest.Base64
