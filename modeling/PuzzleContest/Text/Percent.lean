/-!
# Percent-encoded text

A percent sign and two hexadecimal digits stand for an octet.  The octets and the ASCII characters
of a text together are read as UTF-8; an ill-formed part is replaced by one replacement character.

Main definitions:

- `Percent.scan`: the octets of a text, and its characters outside ASCII.
- `Percent.decode`: the decoded text.
-/

namespace PuzzleContest.Text.Percent

/-- The character that stands for an ill-formed part. -/
def replacement : Char := '\ufffd'

/-- The value of a hexadecimal digit. -/
def hexValue? (c : Char) : Option Nat :=
  if '0' ≤ c ∧ c ≤ '9' then some (c.toNat - '0'.toNat)
  else if 'a' ≤ c ∧ c ≤ 'f' then some (c.toNat - 'a'.toNat + 10)
  else if 'A' ≤ c ∧ c ≤ 'F' then some (c.toNat - 'A'.toNat + 10)
  else none

/-- The octet of two hexadecimal digits. -/
def octet? (a b : Char) : Option Nat := do return 16 * (← hexValue? a) + (← hexValue? b)

/-- What a text is made of: octets, and characters outside ASCII. -/
inductive Item where
  | octet (n : Nat)
  | char (c : Char)
deriving DecidableEq, Repr

/-- A character by itself. -/
def itemOf (c : Char) : Item := if c.toNat < 128 then .octet c.toNat else .char c

/-- The items of a text; a percent sign without two digits stands for itself. -/
def scan : List Char → List Item
  | [] => []
  | '%' :: a :: b :: rest =>
    match octet? a b with
    | some n => .octet n :: scan rest
    | none => .octet 0x25 :: scan (a :: b :: rest)
  | c :: rest => itemOf c :: scan rest

/-- A character that has begun: its bits so far, the octets owed, and the range of the next one. -/
structure Begun where
  bits : Nat
  owed : Nat
  least : Nat := 0x80
  greatest : Nat := 0xBF
deriving DecidableEq, Repr

/-- An octet at the start of a character: what it yields, and what it begins. -/
def begin? (b : Nat) : List Char × Option Begun :=
  if b < 0x80 then ([Char.ofNat b], none)
  else if b < 0xC2 then ([replacement], none)
  else if b < 0xE0 then ([], some { bits := b - 0xC0, owed := 1 })
  else if b = 0xE0 then ([], some { bits := 0, owed := 2, least := 0xA0 })
  else if b = 0xED then ([], some { bits := 0xD, owed := 2, greatest := 0x9F })
  else if b < 0xF0 then ([], some { bits := b - 0xE0, owed := 2 })
  else if b = 0xF0 then ([], some { bits := 0, owed := 3, least := 0x90 })
  else if b < 0xF4 then ([], some { bits := b - 0xF0, owed := 3 })
  else if b = 0xF4 then ([], some { bits := 4, owed := 3, greatest := 0x8F })
  else ([replacement], none)

/-- One more octet: what it yields, and what has begun after it. -/
def feed (begun : Option Begun) (b : Nat) : List Char × Option Begun :=
  match begun with
  | none => begin? b
  | some s =>
    if s.least ≤ b ∧ b ≤ s.greatest then
      let bits := 64 * s.bits + b % 64
      if s.owed ≤ 1 then ([Char.ofNat bits], none) else ([], some { bits, owed := s.owed - 1 })
    else
      let (out, next) := begin? b
      (replacement :: out, next)

/-- What a character that has begun and does not go on yields. -/
def cutOff (begun : Option Begun) : List Char := if begun.isSome then [replacement] else []

/-- The characters of a list of items. -/
def assemble (begun : Option Begun) : List Item → List Char
  | [] => cutOff begun
  | .octet b :: rest => let (out, next) := feed begun b; out ++ assemble next rest
  | .char c :: rest => cutOff begun ++ c :: assemble none rest

/-- The text that a percent-encoded text stands for. -/
def decode (s : List Char) : List Char := assemble none (scan s)

/-- A text of ASCII characters without a percent sign stands for itself. -/
theorem decode_of_plain {s : List Char} (h : ∀ c ∈ s, c.toNat < 128 ∧ c ≠ '%') : decode s = s := by
  have hscan : scan s = s.map itemOf := by
    induction s with
    | nil => rfl
    | cons c rest ih =>
      have hc := h c (by simp)
      have := ih fun d hd => h d (by simp [hd])
      unfold scan
      split
      · simp_all
      · simp_all
      · simp_all
  unfold decode
  rw [hscan]
  clear hscan
  induction s with
  | nil => rfl
  | cons c rest ih =>
    have hc := h c (by simp)
    have hrest := ih fun d hd => h d (by simp [hd])
    simp [itemOf, hc.1, assemble, feed, begin?, hrest, Char.ofNat_toNat]

end PuzzleContest.Text.Percent
