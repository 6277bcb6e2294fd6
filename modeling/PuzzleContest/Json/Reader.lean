import PuzzleContest.Json
import PuzzleContest.Text.Integer

/-!
# Reading JSON text

White space is space, tab, carriage return and line feed only.  `NaN`, `Infinity` and `-Infinity`
are numbers.  Numbers otherwise follow the standard; those with a fraction or an exponent become
doubles, the others integers, which may have at most `Text.digitLimit` digits.  Of members with
one name the last counts.  How deep values may lie inside each other is up to the room that a reader has.

Main definitions:

- `ReadError`: what can be wrong with a text, and where.
- `Json.read`: the value of a whole text.
-/

namespace PuzzleContest.Json

/-- What holds other values. -/
inductive Container where
  | list
  | object
deriving DecidableEq, Repr

/-- Why a text is no JSON value: it is malformed at a character offset, an integer is too long, or a
container lies too deep. -/
inductive ReadError where
  | malformed (offset : Nat)
  | integerTooLong
  | tooDeep (container : Container)
deriving DecidableEq, Repr

/-- A failure while reading: `malformed left` with so many characters left at the place of it. -/
inductive Failure where
  | malformed (left : Nat)
  | integerTooLong
  | tooDeep (container : Container)

/-- A reader gives a value and the rest of the text. -/
abbrev Reading (α : Type) := Except Failure (α × List Char)

/-- The white space of the format. -/
def isSpace (c : Char) : Bool := c = ' ' || c = '\t' || c = '\r' || c = '\n'

/-- Drop white space from the front. -/
def skip (s : List Char) : List Char := s.dropWhile isSpace

/-- Fail at the front of the given rest. -/
def failAt {α : Type} (rest : List Char) : Reading α := .error (.malformed rest.length)

/-! ## Strings -/

/-- The value of a hexadecimal digit. -/
def hexValue? (c : Char) : Option Nat :=
  if '0' ≤ c ∧ c ≤ '9' then some (c.toNat - '0'.toNat)
  else if 'a' ≤ c ∧ c ≤ 'f' then some (c.toNat - 'a'.toNat + 10)
  else if 'A' ≤ c ∧ c ≤ 'F' then some (c.toNat - 'A'.toNat + 10)
  else none

/-- Four hexadecimal digits and the rest. -/
def hex4? : List Char → Option (Nat × List Char)
  | a :: b :: c :: d :: rest => do
    return (((← hexValue? a) * 16 + (← hexValue? b)) * 256 + (← hexValue? c) * 16 + (← hexValue? d),
      rest)
  | _ => none

/-- The character that a one-letter escape stands for. -/
def escape? : Char → Option Char
  | '"' => some '"'
  | '\\' => some '\\'
  | '/' => some '/'
  | 'b' => some '\x08'
  | 'f' => some '\x0c'
  | 'n' => some '\n'
  | 'r' => some '\r'
  | 't' => some '\t'
  | _ => none

/-- Whether a code is the first half of a pair that stands for one character. -/
def isHighHalf (n : Nat) : Bool := 0xD800 ≤ n && n < 0xDC00

/-- Whether a code is the second half of such a pair. -/
def isLowHalf (n : Nat) : Bool := 0xDC00 ≤ n && n < 0xE000

/-- The sign of a code. -/
def Sign.ofCode (n : Nat) : Sign :=
  if isHighHalf n || isLowHalf n then .half (Fin.ofNat 2048 (n - firstHalf)) else .char (Char.ofNat n)

/-- The character of a pair of halves. -/
def ofHalves (high low : Nat) : Char :=
  Char.ofNat (0x10000 + (high - 0xD800) * 0x400 + (low - 0xDC00))

/--
The sign of a code and the rest after it.  A first half takes the escape of a second half with it, if
that follows at once and does not end the text.
-/
def pairUp (code : Nat) (after : List Char) : Sign × List Char :=
  match after with
  | '\\' :: 'u' :: more =>
    match hex4? more with
    | some (low, last) =>
      if isHighHalf code ∧ isLowHalf low ∧ last ≠ [] then (.char (ofHalves code low), last)
      else (.ofCode code, after)
    | none => (.ofCode code, after)
  | _ => (.ofCode code, after)

/--
The sign that the four digits after `\u` stand for.  The argument starts after the letter; a failure is
at the letter, also where the text ends with the digits.
-/
def unicodeEscape (rest : List Char) : Reading Sign :=
  match hex4? rest with
  | some (code, c :: after) => .ok (pairUp code (c :: after))
  | _ => .error (.malformed (rest.length + 1))

theorem hex4?_length {s rest : List Char} {n : Nat} (h : hex4? s = some (n, rest)) :
    rest.length < s.length := by
  match s with
  | a :: b :: c :: d :: tail =>
    simp only [hex4?, Option.bind_eq_bind, Option.bind_eq_some_iff, Option.pure_def,
      Option.some.injEq, Prod.mk.injEq] at h
    obtain ⟨_, _, _, _, _, _, _, _, _, rfl⟩ := h
    simp only [List.length_cons]
    omega
  | [] | [_] | [_, _] | [_, _, _] => simp [hex4?] at h

theorem pairUp_length (code : Nat) (after : List Char) :
    (pairUp code after).2.length ≤ after.length := by
  unfold pairUp
  split
  · split
    · rename_i hl
      have := hex4?_length hl
      split <;> simp only [List.length_cons] <;> omega
    · exact Nat.le_refl _
  · exact Nat.le_refl _

theorem unicodeEscape_length {s rest : List Char} {c : Sign}
    (h : unicodeEscape s = .ok (c, rest)) : rest.length < s.length := by
  unfold unicodeEscape at h
  split at h
  · rename_i code d after hh
    have hs := hex4?_length hh
    have hp := pairUp_length code (d :: after)
    simp only [Except.ok.injEq] at h
    rw [h] at hp
    exact Nat.lt_of_le_of_lt hp hs
  · simp at h

/--
The signs up to the closing quote, after those already read.  `opened` is the number of characters left
at the opening quote, where a string without an end fails.
-/
def characters (opened : Nat) (done : List Sign) (s : List Char) : Reading Spelling :=
  match s with
  | [] => .error (.malformed opened)
  | '"' :: rest => .ok (.ofSigns done.reverse, rest)
  | '\\' :: rest =>
    match rest with
    | [] => .error (.malformed opened)
    | 'u' :: more =>
      match h : unicodeEscape more with
      | .error e => .error e
      | .ok (sign, after) =>
        have : after.length < more.length := unicodeEscape_length h
        characters opened (sign :: done) after
    | e :: more =>
      match escape? e with
      | some c => characters opened (.char c :: done) more
      | none => .error (.malformed (more.length + 2))
  | c :: rest =>
    if c.toNat < 0x20 then .error (.malformed (rest.length + 1))
    else characters opened (.char c :: done) rest
termination_by s.length
decreasing_by all_goals (try simp only [List.length_cons]); omega

/-- The string after an opening quote, which the argument still holds. -/
def string (s : List Char) : Reading Spelling := characters s.length [] (s.drop 1)

/-! ## Numbers -/

/-- The ASCII digits at the front, and the rest. -/
def digitRun (s : List Char) : List Char × List Char :=
  (s.takeWhile Char.isDigit, s.dropWhile Char.isDigit)

/-- The number that ASCII digits denote. -/
def numberOf (digits : List Char) : Nat :=
  digits.foldl (fun n c => 10 * n + (c.toNat - '0'.toNat)) 0

/-- The whole part: a zero alone, or digits that do not start with one. -/
def wholePart? : List Char → Option (List Char × List Char)
  | '0' :: rest => some (['0'], rest)
  | c :: rest => if c.isDigit then some (digitRun (c :: rest)) else none
  | [] => none

/-- The digits of a fraction; a point without digits is left alone. -/
def fractionPart (s : List Char) : List Char × List Char :=
  match s with
  | '.' :: rest =>
    match digitRun rest with
    | ([], _) => ([], s)
    | found => found
  | _ => ([], s)

/-- The value of an exponent; a mark without digits is left alone. -/
def exponentPart (s : List Char) : Option Int × List Char :=
  match s with
  | c :: rest =>
    if c = 'e' ∨ c = 'E' then
      let (negative, digits) := Text.splitSign rest
      match digitRun digits with
      | ([], _) => (none, s)
      | (found, after) => (some (Text.signed negative (numberOf found)), after)
    else (none, s)
  | [] => (none, s)

/-- A number; a failure is at its first character. -/
def number (s : List Char) : Reading Json :=
  let negative := s.head? = some '-'
  match wholePart? (if negative then s.drop 1 else s) with
  | none => failAt s
  | some (whole, rest) =>
    let (fraction, rest) := fractionPart rest
    let (exponent, rest) := exponentPart rest
    if fraction.isEmpty ∧ exponent.isNone then
      if Text.digitLimit < whole.length then .error .integerTooLong
      else .ok (.int (Text.signed negative (numberOf whole)), rest)
    else
      .ok (.float (Binary64.ofDecimal negative (numberOf (whole ++ fraction))
        (exponent.getD 0 - fraction.length)), rest)

/-- A word that stands for a value, at the front of a text. -/
def word? (s : List Char) : Option (Json × List Char) :=
  [("null", Json.null), ("true", .bool true), ("false", .bool false), ("NaN", .float .nan),
    ("Infinity", .float (.infinite false)), ("-Infinity", .float (.infinite true))].findSome?
    fun (w, v) => if w.toList.isPrefixOf s then some (v, s.drop w.length) else none

/-! ## Values -/

/-- Fail at a container that lies too deep. -/
def tooDeep {α : Type} (container : Container) : Reading α := .error (.tooDeep container)

mutual

/-- A value at the front of a text.  The first argument bounds the depth and length of reading,
where twice the length of the text is enough; the second says how many containers may still lie
inside each other. -/
def value : Nat → Nat → List Char → Reading Json
  | 0, _, s => failAt s
  | n + 1, room, s =>
    match s with
    | '"' :: _ => (string s).map fun (t, after) => (t.value, after)
    | '{' :: rest =>
      if room = 0 then tooDeep .object
      else
        match skip rest with
        | '}' :: after => .ok (.object [], after)
        | first => members n (room - 1) [] first
    | '[' :: rest =>
      if room = 0 then tooDeep .list
      else
        match skip rest with
        | ']' :: after => .ok (.list [], after)
        | first => items n (room - 1) [] first
    | _ =>
      match word? s with
      | some found => .ok found
      | none => number s

/-- The remaining items of a list, after those already read. -/
def items : Nat → Nat → List Json → List Char → Reading Json
  | 0, _, _, s => failAt s
  | n + 1, room, done, s =>
    match value n room s with
    | .error e => .error e
    | .ok (v, rest) =>
      match skip rest with
      | ']' :: after => .ok (.list (done ++ [v]), after)
      | ',' :: more => items n room (done ++ [v]) (skip more)
      | other => failAt other

/-- The remaining members of an object, after those already read. -/
def members : Nat → Nat → List (Spelling × Json) → List Char → Reading Json
  | 0, _, _, s => failAt s
  | n + 1, room, done, s =>
    match s with
    | '"' :: _ =>
      match string s with
      | .error e => .error e
      | .ok (name, afterName) =>
        match skip afterName with
        | ':' :: colon =>
          match value n room (skip colon) with
          | .error e => .error e
          | .ok (v, afterValue) =>
            let done := setMember name v done
            match skip afterValue with
            | '}' :: after => .ok (.object done, after)
            | ',' :: more => members n room done (skip more)
            | other => failAt other
        | other => failAt other
    | _ => failAt s

end

/-- The value of a whole text, with white space around it and nothing else.  So many containers may lie
inside each other as there is room for. -/
def read (room : Nat) (text : String) : Except ReadError Json :=
  let s := text.toList
  let located : Failure → ReadError
    | .malformed left => .malformed (s.length - left)
    | .integerTooLong => .integerTooLong
    | .tooDeep container => .tooDeep container
  match value (2 * s.length + 2) room (skip s) with
  | .error e => .error (located e)
  | .ok (v, rest) =>
    match skip rest with
    | [] => .ok v
    | extra => .error (located (.malformed extra.length))

end PuzzleContest.Json
