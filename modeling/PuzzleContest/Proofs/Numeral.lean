import Mathlib.Algebra.GroupWithZero.Nat
import PuzzleContest.Text.Integer

/-!
# Integers read back

The decimal text of an integer is read as that integer, as long as it has no more digits than a
reader accepts.

Main result:

- `readInteger?_integerText`: the text of an integer is read as that integer.
-/

namespace PuzzleContest.Text

variable {c : Char} {s : List Char}

/-! ## Digits of ASCII -/

theorem isDigit_bounds (h : c.isDigit = true) : 48 ≤ c.toNat ∧ c.toNat ≤ 57 := by
  simpa [Char.isDigit, UInt32.le_iff_toNat_le] using h

theorem digitValue?_of_isDigit (h : c.isDigit = true) : digitValue? c = some (c.toNat - 48) := by
  obtain ⟨hlow, hhigh⟩ := isDigit_bounds h
  have hzero : (48 ≤ c.toNat && c.toNat < 48 + 10) = true := by
    simp
    omega
  simp [digitValue?, digitZeros, List.find?_cons_of_pos, hzero]

theorem isBlank_of_isDigit (h : c.isDigit = true) : isBlank c = false := by
  obtain ⟨hlow, hhigh⟩ := isDigit_bounds h
  simp only [isBlank, inRanges, blankRanges, List.any_eq_false]
  simp
  omega

theorem ne_of_isDigit {d : Char} (h : c.isDigit = true) (hd : d.isDigit = false) : c ≠ d := by
  rintro rfl
  simp [h] at hd

/-! ## Reading a sign and digits -/

/-- Digits without underscores between them are read one by one. -/
theorem underscoredDigits?_of_isDigit (hne : s ≠ []) (hs : ∀ c ∈ s, c.isDigit = true) :
    underscoredDigits? digitValue? s = some (s.map fun c => c.toNat - 48) := by
  induction s with
  | nil => exact absurd rfl hne
  | cons c rest ih =>
    have hc := digitValue?_of_isDigit (hs c List.mem_cons_self)
    cases rest with
    | nil => simp [underscoredDigits?, hc]
    | cons d rest =>
      have hd : d ≠ '_' := ne_of_isDigit (hs d (by simp)) (by decide)
      have hrest := ih (by simp) fun x hx => hs x (List.mem_cons_of_mem _ hx)
      rw [underscoredDigits?]
      · simp [hc, hrest]
      · simp
      · intro x hx
        simp only [List.cons.injEq] at hx
        exact absurd hx.1 hd

theorem splitSign_of_isDigit (hs : ∀ c ∈ s, c.isDigit = true) : splitSign s = (false, s) := by
  unfold splitSign
  split
  · exact absurd (hs '-' List.mem_cons_self) (by decide)
  · exact absurd (hs '+' List.mem_cons_self) (by decide)
  · rfl

theorem trim_of_isBlank_eq_false (hs : ∀ c ∈ s, isBlank c = false) : trim s = s := by
  have hdrop : ∀ l : List Char, (∀ c ∈ l, isBlank c = false) → l.dropWhile isBlank = l := by
    intro l hl
    cases l with
    | nil => rfl
    | cons c rest => simp [hl c List.mem_cons_self]
  unfold trim trimBy
  rw [hdrop s hs, hdrop s.reverse (by simpa using hs), List.reverse_reverse]

theorem digitsNumber_map (s : List Char) :
    digitsNumber (s.map fun c => c.toNat - 48) = Nat.ofDigitChars 10 s 0 := by
  simp [digitsNumber, Nat.ofDigitChars, List.foldl_map]

/-! ## The text of an integer -/

theorem isDigit_of_mem_toDigits {n : Nat} (h : c ∈ Nat.toDigits 10 n) : c.isDigit = true :=
  Nat.isDigit_of_mem_toDigits (by omega) (by omega) h

/-- The text of an integer is a perhaps missing minus sign and digits. -/
theorem integerText_eq (n : Int) :
    integerText n = (if n < 0 then ['-'] else []) ++ Nat.toDigits 10 n.natAbs := by
  unfold integerText
  split <;> simp

theorem mem_integerText {n : Int} (h : c ∈ integerText n) : c = '-' ∨ c.isDigit = true := by
  rw [integerText_eq, List.mem_append] at h
  rcases h with hsign | hdigit
  · split at hsign
    · exact .inl (List.mem_singleton.1 hsign)
    · simp at hsign
  · exact .inr (isDigit_of_mem_toDigits hdigit)

theorem splitSign_integerText (n : Int) :
    splitSign (integerText n) = (decide (n < 0), Nat.toDigits 10 n.natAbs) := by
  rw [integerText_eq]
  by_cases hn : n < 0
  · simp [hn, splitSign]
  · simp [hn, splitSign_of_isDigit fun c => isDigit_of_mem_toDigits]

theorem signed_natAbs (n : Int) : signed (decide (n < 0)) n.natAbs = n := by
  unfold signed
  by_cases hn : n < 0
  · simp only [hn, decide_true, if_true]
    omega
  · simp only [hn, decide_false, Bool.false_eq_true, if_false]
    omega

/-- The text of an integer is read as that integer. -/
theorem readInteger?_integerText {n : Int} (hn : n.natAbs < 10 ^ digitLimit) :
    readInteger? (integerText n) = some n := by
  have htrim : trim (integerText n) = integerText n := by
    apply trim_of_isBlank_eq_false
    intro c hc
    rcases mem_integerText hc with rfl | hdigit
    · decide
    · exact isBlank_of_isDigit hdigit
  have hdigits : underscoredDigits? digitValue? (Nat.toDigits 10 n.natAbs) =
      some ((Nat.toDigits 10 n.natAbs).map fun c => c.toNat - 48) :=
    underscoredDigits?_of_isDigit Nat.toDigits_ne_nil fun c => isDigit_of_mem_toDigits
  have hlength : ¬digitLimit < ((Nat.toDigits 10 n.natAbs).map fun c => c.toNat - 48).length := by
    rw [List.length_map, Nat.not_lt]
    exact (Nat.length_toDigits_le_iff (by omega) (by decide)).2 hn
  unfold readInteger?
  rw [htrim, splitSign_integerText]
  simp only [hdigits, Option.bind_eq_bind, Option.bind_some, if_neg hlength, digitsNumber_map,
    Nat.ofDigitChars_ten_toDigits, signed_natAbs]

end PuzzleContest.Text
