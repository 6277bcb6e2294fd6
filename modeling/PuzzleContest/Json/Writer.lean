import PuzzleContest.Json

/-!
# Writing JSON text

One canonical text per value: members sorted by name, one blank after each comma and colon, and
characters outside ASCII escaped.  Doubles are written with the fewest digits, as numbers.
-/

namespace PuzzleContest.Json

/-- A code of 16 bits as an escape. -/
def codeEscape (n : Nat) : List Char :=
  let digit (unit : Nat) := Nat.digitChar (n / unit % 16)
  ['\\', 'u', digit 4096, digit 256, digit 16, digit 1]

/-- One character inside a string. -/
def escaped (c : Char) : List Char :=
  match c with
  | '"' => ['\\', '"']
  | '\\' => ['\\', '\\']
  | '\n' => ['\\', 'n']
  | '\r' => ['\\', 'r']
  | '\t' => ['\\', 't']
  | '\x08' => ['\\', 'b']
  | '\x0c' => ['\\', 'f']
  | _ =>
    if 0x20 ≤ c.toNat ∧ c.toNat < 0x7F then [c]
    else if c.toNat < 0x10000 then codeEscape c.toNat
    else
      codeEscape (0xD800 + (c.toNat - 0x10000) / 0x400) ++
        codeEscape (0xDC00 + (c.toNat - 0x10000) % 0x400)

/-- One sign inside a string. -/
def Sign.escaped : Sign → List Char
  | .char c => Json.escaped c
  | .half n => codeEscape (firstHalf + n)

/-- A quoted string. -/
def quoted (s : Spelling) : List Char := '"' :: s.signs.flatMap Sign.escaped ++ ['"']

/-- The order of names: by the codes of their signs. -/
def Spelling.precedes (a b : Spelling) : Bool :=
  !(b.signs.map Sign.code).lex (a.signs.map Sign.code) Nat.blt

/-- Texts with a separator between them. -/
def joined (separator : List Char) : List (List Char) → List Char
  | [] => []
  | [s] => s
  | s :: rest => s ++ separator ++ joined separator rest

mutual

/-- The canonical text of a value. -/
def write (float : Binary64 → List Char) : Json → List Char
  | .null => "null".toList
  | .bool true => "true".toList
  | .bool false => "false".toList
  | .int n => (toString n).toList
  | .float x => float x
  | .text s => quoted s
  | .unpaired s => quoted (.ragged s)
  | .list items => '[' :: joined [',', ' '] (writeItems float items) ++ [']']
  | .object members =>
    let texts := (writeMembers float members).mergeSort fun a b => a.1.precedes b.1
    '\x7b' :: joined [',', ' '] (texts.map fun m => quoted m.1 ++ ':' :: ' ' :: m.2) ++ ['\x7d']

/-- The texts of the items of a list. -/
def writeItems (float : Binary64 → List Char) : List Json → List (List Char)
  | [] => []
  | v :: rest => write float v :: writeItems float rest

/-- The names and texts of the members of an object. -/
def writeMembers (float : Binary64 → List Char) :
    List (Spelling × Json) → List (Spelling × List Char)
  | [] => []
  | (name, v) :: rest => (name, write float v) :: writeMembers float rest

end

end PuzzleContest.Json
