import Mathlib.Data.List.Basic
import PuzzleContest.Json.Reader

/-!
# What reading takes off a text

Strings, numbers and words are read from the front of a text.  They take at least one character off it,
and what they leave is the end of the text.  None of them holds other values, so that none can lie too
deep.

Main definitions:

- `Json.Advances`: something is taken off the front of a text.
- `Json.Deep`: a container lies too deep.

Main results:

- `Json.string_advances`, `Json.number_advances`, `Json.word?_advances`: so do strings, numbers and words.
- `Json.not_deep_string`, `Json.not_deep_number`: strings and numbers never lie too deep.
-/

namespace PuzzleContest.Json

variable {α : Type} {s rest middle : List Char}

/-- Something is taken off the front of a text, and this is what it leaves. -/
def Advances (s rest : List Char) : Prop := ∃ c t, s = c :: t ∧ rest <:+ t

theorem Advances.suffix (h : Advances s rest) : rest <:+ s := by
  obtain ⟨c, t, rfl, ht⟩ := h
  exact ht.trans (List.suffix_cons c t)

theorem Advances.length_lt (h : Advances s rest) : rest.length < s.length := by
  obtain ⟨c, t, rfl, ht⟩ := h
  exact Nat.lt_succ_of_le ht.length_le

theorem Advances.trans (h : Advances s middle) (h' : rest <:+ middle) : Advances s rest := by
  obtain ⟨c, t, rfl, ht⟩ := h
  exact ⟨c, t, rfl, h'.trans ht⟩

theorem Advances.of_suffix (h : middle <:+ s) (h' : Advances middle rest) : Advances s rest := by
  cases s with
  | nil =>
    obtain ⟨c, t, rfl, -⟩ := h'
    exact absurd (List.eq_nil_of_suffix_nil h) (by simp)
  | cons c t =>
    refine ⟨c, t, rfl, ?_⟩
    rcases List.suffix_cons_iff.1 h with rfl | hmiddle
    · obtain ⟨d, u, heq, hu⟩ := h'
      rw [List.cons.injEq] at heq
      exact heq.2 ▸ hu
    · exact h'.suffix.trans hmiddle

theorem advances_cons (c : Char) (t : List Char) : Advances (c :: t) t := ⟨c, t, rfl, List.suffix_rfl⟩

theorem skip_suffix (s : List Char) : skip s <:+ s := List.dropWhile_suffix _

/-! ## Strings -/

theorem hex4?_suffix {n : Nat} (h : hex4? s = some (n, rest)) : rest <:+ s := by
  match s with
  | a :: b :: c :: d :: tail =>
    simp only [hex4?, Option.bind_eq_bind, Option.bind_eq_some_iff, Option.pure_def,
      Option.some.injEq, Prod.mk.injEq] at h
    obtain ⟨_, _, _, _, _, _, _, _, _, rfl⟩ := h
    exact ⟨[a, b, c, d], rfl⟩
  | [] | [_] | [_, _] | [_, _, _] => simp [hex4?] at h

theorem pairUp_suffix (code : Nat) (after : List Char) : (pairUp code after).2 <:+ after := by
  unfold pairUp
  split
  · split
    · rename_i more _ _ hlow
      split
      · exact (hex4?_suffix hlow).trans ⟨['\\', 'u'], rfl⟩
      · exact List.suffix_rfl
    · exact List.suffix_rfl
  · exact List.suffix_rfl

theorem unicodeEscape_suffix {c : Sign} (h : unicodeEscape s = .ok (c, rest)) : rest <:+ s := by
  unfold unicodeEscape at h
  split at h
  · rename_i code d after hcode
    rw [Except.ok.injEq] at h
    have hpair := pairUp_suffix code (d :: after)
    rw [h] at hpair
    exact hpair.trans (hex4?_suffix hcode)
  · simp at h

theorem characters_suffix {opened : Nat} {done : List Sign} {x : Spelling}
    (h : characters opened done s = .ok (x, rest)) : rest <:+ s := by
  fun_induction characters opened done s with
  | case1 | case3 | case4 | case7 | case8 => simp at h
  | case2 =>
    simp only [Except.ok.injEq, Prod.mk.injEq] at h
    exact h.2 ▸ List.suffix_cons _ _
  | case5 done more c after hescape _ ih =>
    exact ((ih h).trans (unicodeEscape_suffix hescape)).trans ⟨['\\', 'u'], rfl⟩
  | case6 done e more _ c _ ih => exact (ih h).trans ⟨['\\', e], rfl⟩
  | case9 done c more _ _ _ ih => exact (ih h).trans (List.suffix_cons c more)

theorem string_advances {x : Spelling} (h : string s = .ok (x, rest)) : Advances s rest := by
  unfold string at h
  cases s with
  | nil => simp [characters] at h
  | cons c t => exact ⟨c, t, rfl, characters_suffix h⟩

/-! ## Numbers and words -/

theorem digitRun_suffix (s : List Char) : (digitRun s).2 <:+ s := List.dropWhile_suffix _

theorem wholePart?_advances {whole : List Char} (h : wholePart? s = some (whole, rest)) :
    Advances s rest := by
  unfold wholePart? at h
  split at h
  · rename_i t
    simp only [Option.some.injEq, Prod.mk.injEq] at h
    exact h.2 ▸ advances_cons _ t
  · rename_i c t _
    split at h
    · rename_i hdigit
      rw [Option.some.injEq, digitRun, Prod.mk.injEq, List.dropWhile_cons_of_pos hdigit] at h
      exact ⟨c, t, rfl, h.2 ▸ List.dropWhile_suffix _⟩
    · simp at h
  · simp at h

theorem fractionPart_suffix (s : List Char) : (fractionPart s).2 <:+ s := by
  unfold fractionPart
  split
  · rename_i t
    split
    · exact List.suffix_rfl
    · exact (digitRun_suffix t).trans (List.suffix_cons _ t)
  · exact List.suffix_rfl

theorem splitSign_suffix (s : List Char) : (Text.splitSign s).2 <:+ s := by
  unfold Text.splitSign
  split
  · exact List.suffix_cons _ _
  · exact List.suffix_cons _ _
  · exact List.suffix_rfl

theorem exponentPart_suffix (s : List Char) : (exponentPart s).2 <:+ s := by
  unfold exponentPart
  split
  · rename_i c t
    split
    · dsimp only
      split
      · exact List.suffix_rfl
      · rename_i found after _ hdigits
        have hafter := digitRun_suffix (Text.splitSign t).2
        rw [hdigits] at hafter
        exact (hafter.trans (splitSign_suffix t)).trans (List.suffix_cons c t)
    · exact List.suffix_rfl
  · exact List.suffix_rfl

theorem number_advances {v : Json} (h : number s = .ok (v, rest)) : Advances s rest := by
  unfold number at h
  dsimp only at h
  cases hwhole : wholePart? (if s.head? = some '-' then s.drop 1 else s) with
  | none =>
    simp only [hwhole, failAt] at h
    exact absurd h (by simp)
  | some found =>
    obtain ⟨whole, after⟩ := found
    have hstart : Advances s after := by
      refine .of_suffix ?_ (wholePart?_advances hwhole)
      split
      · exact List.drop_suffix 1 s
      · exact List.suffix_rfl
    have hend : rest = (exponentPart (fractionPart after).2).2 := by
      simp only [hwhole] at h
      split at h
      · split at h
        · simp at h
        · simp only [Except.ok.injEq, Prod.mk.injEq] at h
          exact h.2.symm
      · simp only [Except.ok.injEq, Prod.mk.injEq] at h
        exact h.2.symm
    refine hstart.trans ?_
    rw [hend]
    exact (exponentPart_suffix _).trans (fractionPart_suffix after)

/-- The characters that strings, objects and lists start and end with. -/
def marks : List Char := ['"', '{', '[', '}', ']']

/-- A word is one of a few that stand for a value without parts; none of them starts like another
value. -/
theorem word?_eq_some {v : Json} (h : word? s = some (v, rest)) :
    (∃ c t, s = c :: t ∧ rest <:+ t ∧ c ∉ marks) ∧ (∀ x, number s ≠ .ok x) ∧
      (v = .null ∨ (∃ b, v = .bool b) ∨ ∃ x, v = .float x) := by
  unfold word? at h
  obtain ⟨⟨w, v'⟩, hw, h⟩ := List.exists_of_findSome?_eq_some h
  dsimp only at h
  split at h
  · rename_i hstart
    obtain ⟨t, rfl⟩ := List.isPrefixOf_iff_prefix.1 hstart
    rw [Option.some.injEq, Prod.mk.injEq] at h
    obtain ⟨rfl, rfl⟩ := h
    simp only [List.mem_cons, Prod.mk.injEq, List.not_mem_nil, or_false] at hw
    rcases hw with ⟨rfl, rfl⟩ | ⟨rfl, rfl⟩ | ⟨rfl, rfl⟩ | ⟨rfl, rfl⟩ | ⟨rfl, rfl⟩ | ⟨rfl, rfl⟩
    all_goals
      refine ⟨⟨_, _, rfl, ⟨_, rfl⟩, by decide⟩, ?_, by simp⟩
      simp [number, wholePart?, failAt]
  · simp at h

theorem word?_advances {v : Json} (h : word? s = some (v, rest)) : Advances s rest := by
  obtain ⟨⟨c, t, rfl, ht, -⟩, -⟩ := word?_eq_some h
  exact ⟨c, t, rfl, ht⟩

/-- A number starts like no other value, and has no parts either. -/
theorem number_eq_ok {v : Json} (h : number s = .ok (v, rest)) :
    (∃ c t, s = c :: t ∧ c ∉ marks) ∧ ((∃ n, v = .int n) ∨ ∃ x, v = .float x) := by
  constructor
  · obtain ⟨c, t, rfl, -⟩ := number_advances h
    refine ⟨c, t, rfl, fun hc => ?_⟩
    simp only [marks, List.mem_cons, List.not_mem_nil, or_false] at hc
    rcases hc with rfl | rfl | rfl | rfl | rfl <;> simp [number, wholePart?, failAt] at h
  · unfold number at h
    dsimp only at h
    split at h
    · simp [failAt] at h
    · split at h
      · split at h
        · simp at h
        · simp only [Except.ok.injEq, Prod.mk.injEq] at h
          exact .inl ⟨_, h.1.symm⟩
      · simp only [Except.ok.injEq, Prod.mk.injEq] at h
        exact .inr ⟨_, h.1.symm⟩

/-! ## Depth -/

/-- A container lies too deep. -/
def Deep (x : Except Failure α) : Prop := ∃ container, x = .error (.tooDeep container)

theorem not_deep_ok (a : α) : ¬Deep (.ok a : Except Failure α) := by
  rintro ⟨container, h⟩
  simp at h

theorem not_deep_failAt (rest : List Char) : ¬Deep (failAt rest : Reading α) := by
  rintro ⟨container, h⟩
  simp [failAt] at h

theorem not_deep_unicodeEscape (s : List Char) : ¬Deep (unicodeEscape s) := by
  rintro ⟨container, h⟩
  unfold unicodeEscape at h
  split at h <;> simp at h

theorem not_deep_characters (opened : Nat) (done : List Sign) (s : List Char) :
    ¬Deep (characters opened done s) := by
  rintro ⟨container, h⟩
  fun_induction characters opened done s with
  | case1 | case2 | case3 | case7 | case8 => simp at h
  | case4 done more e hescape =>
    rw [Except.error.injEq] at h
    exact not_deep_unicodeEscape more ⟨container, hescape.trans (congrArg _ h)⟩
  | case5 done more c after hescape _ ih => exact ih h
  | case6 done e more _ c _ ih => exact ih h
  | case9 done c more _ _ _ ih => exact ih h

theorem not_deep_string (s : List Char) : ¬Deep (string s) := not_deep_characters _ _ _

theorem not_deep_number (s : List Char) : ¬Deep (number s) := by
  rintro ⟨container, h⟩
  unfold number at h
  dsimp only at h
  split at h
  · simp [failAt] at h
  · split at h
    · split at h <;> simp at h
    · simp at h

end PuzzleContest.Json
