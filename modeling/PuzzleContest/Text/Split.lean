/-!
# Cutting a text at a character
-/

namespace PuzzleContest.Text

/-- Cut at the first occurrence of a character; the character itself is dropped. -/
def cutFirst? (c : Char) (s : List Char) : Option (List Char × List Char) :=
  match s.dropWhile (· ≠ c) with
  | [] => none
  | _ :: rest => some (s.takeWhile (· ≠ c), rest)

/-- Cut at the last occurrence of a character; the character itself is dropped. -/
def cutLast? (c : Char) : List Char → Option (List Char × List Char)
  | [] => none
  | d :: rest =>
    match cutLast? c rest with
    | some (before, after) => some (d :: before, after)
    | none => if d = c then some ([], rest) else none

/-- The pieces between the occurrences of a character: one more than there are occurrences. -/
def pieces (c : Char) : List Char → List (List Char)
  | [] => [[]]
  | d :: rest =>
    if d = c then [] :: pieces c rest
    else
      match pieces c rest with
      | [] => [[d]]
      | piece :: more => (d :: piece) :: more

/-- A text without the character has no last cut. -/
theorem cutLast?_eq_none {c : Char} {s : List Char} (h : c ∉ s) : cutLast? c s = none := by
  induction s with
  | nil => rfl
  | cons d rest ih =>
    simp only [List.mem_cons, not_or] at h
    simp [cutLast?, ih h.2, Ne.symm h.1]

/-- The last cut of a text is at the character after which none follows. -/
theorem cutLast?_append {c : Char} {after : List Char} (before : List Char) (h : c ∉ after) :
    cutLast? c (before ++ c :: after) = some (before, after) := by
  induction before with
  | nil => simp [cutLast?, cutLast?_eq_none h]
  | cons d rest ih => simp [cutLast?, ih]

end PuzzleContest.Text
