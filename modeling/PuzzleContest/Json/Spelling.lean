/-!
# Texts as they are spelled

The data format spells some characters as two halves, and a half may stand alone.  A text in which one
does is a text like any other, except that it cannot be sent or stored.

Main definitions:

- `Json.Sign`: a character, or half of one that stands alone.
- `Json.Spelling`: a text with all its signs.

Main results:

- `Json.Spelling.signs_ofSigns`: a text keeps its signs, so that different texts stay different.
-/

namespace PuzzleContest.Json

/-- A character of a text, or half of one that stands alone. -/
inductive Sign where
  | char (c : Char)
  /-- A half, by its place among all halves. -/
  | half (n : Fin 2048)
deriving DecidableEq, Repr

namespace Sign

/-- Whether a sign is half of a character. -/
def isHalf : Sign → Bool
  | char _ => false
  | half _ => true

/-- The code of the first half. -/
def firstHalf : Nat := 0xD800

/-- The code of a sign. -/
def code : Sign → Nat
  | char c => c.toNat
  | half n => firstHalf + n

/-- The character that a sign is. -/
def char? : Sign → Option Char
  | char c => some c
  | half _ => none

end Sign

/-- A text in which half of a character stands alone. -/
structure Ragged where
  signs : List Sign
  ragged : signs.any Sign.isHalf = true
deriving DecidableEq, Repr

/-- A text: of characters only, or with a half that stands alone. -/
inductive Spelling where
  | plain (s : String)
  | ragged (s : Ragged)
deriving DecidableEq, Repr

instance : Coe String Spelling := ⟨.plain⟩

namespace Spelling

/-- The signs of a text. -/
def signs : Spelling → List Sign
  | plain s => s.toList.map .char
  | ragged s => s.signs

/-- Whether no half stands alone. -/
def isPaired : Spelling → Bool
  | plain _ => true
  | ragged _ => false

/-- The characters of a text without halves. -/
def string? : Spelling → Option String
  | plain s => some s
  | ragged _ => none

/-- The text of some signs. -/
def ofSigns (signs : List Sign) : Spelling :=
  if h : signs.any Sign.isHalf = true then .ragged ⟨signs, h⟩
  else .plain (String.ofList (signs.filterMap Sign.char?))

/-- Signs without halves are characters. -/
theorem map_char_filterMap {signs : List Sign} (h : signs.any Sign.isHalf = false) :
    (signs.filterMap Sign.char?).map Sign.char = signs := by
  induction signs with
  | nil => rfl
  | cons s rest ih =>
    rw [List.any_cons, Bool.or_eq_false_iff] at h
    cases s with
    | char c => simp [Sign.char?, ih h.2]
    | half n => simp [Sign.isHalf] at h

/-- A text keeps its signs. -/
@[simp]
theorem signs_ofSigns (signs : List Sign) : (ofSigns signs).signs = signs := by
  unfold ofSigns
  split
  · rfl
  · rename_i h
    rw [Spelling.signs, String.toList_ofList]
    exact map_char_filterMap ((Bool.not_eq_true _).mp h)

/-- Different signs make different texts. -/
theorem ofSigns_inj {signs others : List Sign} : ofSigns signs = ofSigns others ↔ signs = others := by
  constructor
  · intro h
    rw [← signs_ofSigns signs, h, signs_ofSigns]
  · rintro rfl
    rfl

end Spelling

end PuzzleContest.Json
