import PuzzleContest.Text.Printable

/-!
# Keys with a written form

A key of the keyed locks is a text or a list of texts and integers.  Its written form has texts in
quotes and lists in brackets, and keys are sorted by it.
-/

namespace PuzzleContest.Lock

/-- A part of a composite key. -/
inductive Part where
  | text (s : String)
  | number (n : Int)
deriving DecidableEq, Repr

/-- A key: a text, or a list of parts. -/
inductive Key where
  | text (s : String)
  | parts (ps : List Part)
deriving DecidableEq, Repr

/-- A number as exactly so many hexadecimal digits. -/
def hexDigits : Nat → Nat → List Char
  | 0, _ => []
  | width + 1, n => hexDigits width (n / 16) ++ [Nat.digitChar (n % 16)]

/-- A character by its number, in the shortest of the three spellings that has room for it. -/
def numbered (c : Char) : List Char :=
  if c.toNat < 0x100 then '\\' :: 'x' :: hexDigits 2 c.toNat
  else if c.toNat < 0x10000 then '\\' :: 'u' :: hexDigits 4 c.toNat
  else '\\' :: 'U' :: hexDigits 8 c.toNat

/-- A character inside quotes.  What does not print is written by its number. -/
def shown (quote : Char) (c : Char) : List Char :=
  if c = quote ∨ c = '\\' then ['\\', c]
  else if c = '\n' then ['\\', 'n']
  else if c = '\r' then ['\\', 'r']
  else if c = '\t' then ['\\', 't']
  else if Text.isPrintable c then [c]
  else numbered c

/-- A part as it is shown: texts in single quotes unless they hold one and no double quote. -/
def Part.shown : Part → List Char
  | .number n => (toString n).toList
  | .text s =>
    let quote := if s.toList.contains '\'' && !s.toList.contains '"' then '"' else '\''
    quote :: s.toList.flatMap (Lock.shown quote) ++ [quote]

/-- Parts with commas between them. -/
def listed : List Part → List Char
  | [] => []
  | [p] => p.shown
  | p :: rest => p.shown ++ ',' :: ' ' :: listed rest

/-- The written form of a list of parts. -/
def partsLabel (ps : List Part) : List Char := '[' :: listed ps ++ [']']

/-- The written form of a key. -/
def Key.label : Key → List Char
  | .text s => (Part.text s).shown
  | .parts ps => partsLabel ps

/-- The order of the written forms; since a quote comes before a bracket, texts come first. -/
def Key.precedes (k l : Key) : Bool := String.ofList k.label ≤ String.ofList l.label

end PuzzleContest.Lock
