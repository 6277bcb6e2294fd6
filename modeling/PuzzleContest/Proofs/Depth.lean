import PuzzleContest.Proofs.Grammar

/-!
# Containers that lie too deep

The reader has room for so many containers inside each other.  With more room it finds what it found
before, except where it stopped for want of room.  To stop so takes more opening brackets and braces
than there is room for; and that many brackets at the front of a text are enough, whatever follows them.

Main results:

- `Json.Steady.of_fuel`: more room changes only what was too deep.
- `Json.Bounded.of_fuel`: what is too deep has more openings than there is room for.
- `Json.value_of_brackets`: brackets at the front that are too deep.
-/

namespace PuzzleContest.Json

variable {n room : Nat} {s rest : List Char}

/-! ## More room -/

/-- With so much fuel more room changes only what was too deep. -/
structure Steady (n : Nat) : Prop where
  value {room room' : Nat} {s : List Char} : room ≤ room' → ¬Deep (Json.value n room s) →
    Json.value n room' s = Json.value n room s
  items {room room' : Nat} {done : List Json} {s : List Char} : room ≤ room' →
    ¬Deep (Json.items n room done s) → Json.items n room' done s = Json.items n room done s
  members {room room' : Nat} {done : List (Spelling × Json)} {s : List Char} : room ≤ room' →
    ¬Deep (Json.members n room done s) → Json.members n room' done s = Json.members n room done s

theorem deep_tooDeep {α : Type} (container : Container) : Deep (tooDeep container : Reading α) :=
  ⟨container, rfl⟩

theorem Deep.of_error {α β : Type} {e : Failure} (h : Deep (.error e : Except Failure α)) :
    Deep (.error e : Except Failure β) := by
  obtain ⟨container, he⟩ := h
  exact ⟨container, congrArg Except.error (Except.error.inj he)⟩

/-- A container with more room changes only if it was too deep. -/
theorem opened_steady {container : Container} {close : Char} {empty : Json}
    {parts : Nat → List Char → Reading Json} {room' : Nat}
    (hparts : room - 1 ≤ room' - 1 → ¬Deep (parts (room - 1) (skip s)) →
      parts (room' - 1) (skip s) = parts (room - 1) (skip s))
    (hle : room ≤ room') (hdeep : ¬Deep (opened container close empty parts room s)) :
    opened container close empty parts room' s = opened container close empty parts room s := by
  unfold opened at hdeep ⊢
  by_cases hroom : room = 0
  · rw [if_pos hroom] at hdeep
    exact absurd (deep_tooDeep container) hdeep
  · have hroom' : room' ≠ 0 := by omega
    rw [if_neg hroom] at hdeep ⊢
    rw [if_neg hroom']
    split
    · rfl
    · rename_i hopen
      rw [if_neg hopen] at hdeep
      exact hparts (by omega) hdeep

theorem Steady.value_succ (h : Steady n) {room' : Nat} (hle : room ≤ room')
    (hdeep : ¬Deep (Json.value (n + 1) room s)) :
    Json.value (n + 1) room' s = Json.value (n + 1) room s := by
  rcases start_cases s with ⟨t, rfl⟩ | ⟨t, rfl⟩ | ⟨t, rfl⟩ | hplain
  · rw [value_quote, value_quote]
  · rw [value_brace] at hdeep ⊢
    rw [value_brace]
    exact opened_steady h.members hle hdeep
  · rw [value_bracket] at hdeep ⊢
    rw [value_bracket]
    exact opened_steady h.items hle hdeep
  · rw [value_plain n _ hplain, value_plain n _ hplain]

theorem Steady.items_succ (h : Steady n) {room' : Nat} {done : List Json} (hle : room ≤ room')
    (hdeep : ¬Deep (Json.items (n + 1) room done s)) :
    Json.items (n + 1) room' done s = Json.items (n + 1) room done s := by
  rw [Json.items_succ] at hdeep ⊢
  rw [Json.items_succ]
  cases hvalue : Json.value n room s with
  | error e =>
    rw [hvalue] at hdeep
    rw [h.value hle (hvalue ▸ hdeep), hvalue]
  | ok found =>
    rw [h.value hle (hvalue ▸ not_deep_ok _), hvalue]
    rw [hvalue] at hdeep
    dsimp only at hdeep ⊢
    split
    · rfl
    · rename_i more hcomma
      simp only [hcomma] at hdeep
      exact h.items hle hdeep
    · rfl

theorem Steady.members_succ (h : Steady n) {room' : Nat} {done : List (Spelling × Json)}
    (hle : room ≤ room') (hdeep : ¬Deep (Json.members (n + 1) room done s)) :
    Json.members (n + 1) room' done s = Json.members (n + 1) room done s := by
  by_cases hquote : ∃ t, s = '"' :: t
  · obtain ⟨t, rfl⟩ := hquote
    rw [members_quote] at hdeep ⊢
    rw [members_quote]
    cases hname : string ('"' :: t) with
    | error e => rfl
    | ok found =>
      obtain ⟨name, afterName⟩ := found
      rw [hname] at hdeep
      dsimp only at hdeep ⊢
      split
      · rename_i colon hcolon
        simp only [hcolon] at hdeep
        cases hvalue : Json.value n room (skip colon) with
        | error e =>
          rw [hvalue] at hdeep
          rw [h.value hle (hvalue ▸ hdeep), hvalue]
        | ok found =>
          rw [h.value hle (hvalue ▸ not_deep_ok _), hvalue]
          rw [hvalue] at hdeep
          dsimp only at hdeep ⊢
          split
          · rfl
          · rename_i more hcomma
            simp only [hcomma] at hdeep
            exact h.members hle hdeep
          · rfl
      · rfl
  · have hplain : ∀ t, s ≠ '"' :: t := fun t ht => hquote ⟨t, ht⟩
    rw [members_plain n _ done hplain, members_plain n _ done hplain]

/-- Whatever fuel there is, more room changes only what was too deep. -/
theorem Steady.of_fuel (n : Nat) : Steady n := by
  induction n with
  | zero => constructor <;> intros <;> simp only [Json.value, Json.items, Json.members]
  | succ n ih => exact ⟨ih.value_succ, ih.items_succ, ih.members_succ⟩

/-! ## Openings -/

/-- How many brackets and braces are opened in a text. -/
def openings (s : List Char) : Nat := s.countP fun c => c = '[' || c = '{'

theorem openings_le {t : List Char} (h : t <:+ s) : openings t ≤ openings s := h.sublist.countP_le

/-- With so much fuel, what is too deep has more openings than there is room for. -/
structure Bounded (n : Nat) : Prop where
  value {room : Nat} {s : List Char} : Deep (Json.value n room s) → room < openings s
  items {room : Nat} {done : List Json} {s : List Char} :
    Deep (Json.items n room done s) → room < openings s
  members {room : Nat} {done : List (Spelling × Json)} {s : List Char} :
    Deep (Json.members n room done s) → room < openings s

/-- A container that is too deep takes one opening, and leaves the rest of the room for its parts. -/
theorem opened_bounded {container : Container} {close c : Char} {empty : Json}
    {parts : Nat → List Char → Reading Json} (hc : c = '[' ∨ c = '{')
    (hparts : Deep (parts (room - 1) (skip s)) → room - 1 < openings (skip s))
    (hdeep : Deep (opened container close empty parts room s)) : room < openings (c :: s) := by
  have hskip := openings_le (skip_suffix s)
  have hcons : openings (c :: s) = openings s + 1 := by
    rcases hc with rfl | rfl <;> simp [openings]
  by_cases hroom : room = 0
  · omega
  · rw [opened, if_neg hroom] at hdeep
    split at hdeep
    · exact absurd hdeep (not_deep_ok _)
    · have hless := hparts hdeep
      omega

theorem Bounded.value_succ (h : Bounded n) (hdeep : Deep (Json.value (n + 1) room s)) :
    room < openings s := by
  rcases start_cases s with ⟨t, rfl⟩ | ⟨t, rfl⟩ | ⟨t, rfl⟩ | hplain
  · rw [value_quote] at hdeep
    cases hstring : string ('"' :: t) with
    | error e =>
      rw [hstring] at hdeep
      exact absurd (hstring ▸ Deep.of_error hdeep) (not_deep_string ('"' :: t))
    | ok found =>
      rw [hstring] at hdeep
      exact absurd hdeep (not_deep_ok _)
  · rw [value_brace] at hdeep
    exact opened_bounded (.inr rfl) h.members hdeep
  · rw [value_bracket] at hdeep
    exact opened_bounded (.inl rfl) h.items hdeep
  · rw [value_plain n room hplain] at hdeep
    split at hdeep
    · exact absurd hdeep (not_deep_ok _)
    · exact absurd hdeep (not_deep_number s)

theorem Bounded.items_succ (h : Bounded n) {done : List Json}
    (hdeep : Deep (Json.items (n + 1) room done s)) : room < openings s := by
  rw [Json.items_succ] at hdeep
  cases hvalue : Json.value n room s with
  | error e =>
    rw [hvalue] at hdeep
    exact h.value (hvalue ▸ hdeep)
  | ok found =>
    obtain ⟨v, after⟩ := found
    have hafter := ((Sound.of_fuel n).value hvalue).advances.suffix
    rw [hvalue] at hdeep
    dsimp only at hdeep
    split at hdeep
    · exact absurd hdeep (not_deep_ok _)
    · rename_i more hcomma
      have hmore := (skip_suffix more).trans ((suffix_of_skip hcomma).trans hafter)
      exact Nat.lt_of_lt_of_le (h.items hdeep) (openings_le hmore)
    · exact absurd hdeep (not_deep_failAt _)

theorem Bounded.members_succ (h : Bounded n) {done : List (Spelling × Json)}
    (hdeep : Deep (Json.members (n + 1) room done s)) : room < openings s := by
  by_cases hquote : ∃ t, s = '"' :: t
  · obtain ⟨t, rfl⟩ := hquote
    rw [members_quote] at hdeep
    cases hname : string ('"' :: t) with
    | error e =>
      rw [hname] at hdeep
      exact absurd (hname ▸ Deep.of_error hdeep) (not_deep_string ('"' :: t))
    | ok found =>
      obtain ⟨name, afterName⟩ := found
      have hstart := (string_advances hname).suffix
      rw [hname] at hdeep
      dsimp only at hdeep
      split at hdeep
      · rename_i colon hcolon
        have hcolon := (skip_suffix colon).trans ((suffix_of_skip hcolon).trans hstart)
        cases hvalue : Json.value n room (skip colon) with
        | error e =>
          rw [hvalue] at hdeep
          exact Nat.lt_of_lt_of_le (h.value (hvalue ▸ hdeep)) (openings_le hcolon)
        | ok found =>
          obtain ⟨v, after⟩ := found
          have hafter := ((Sound.of_fuel n).value hvalue).advances.suffix
          rw [hvalue] at hdeep
          dsimp only at hdeep
          split at hdeep
          · exact absurd hdeep (not_deep_ok _)
          · rename_i more hcomma
            have hmore := (skip_suffix more).trans ((suffix_of_skip hcomma).trans hafter)
            exact Nat.lt_of_lt_of_le (h.members hdeep) (openings_le (hmore.trans hcolon))
          · exact absurd hdeep (not_deep_failAt _)
      · exact absurd hdeep (not_deep_failAt _)
  · rw [members_plain n room done fun t ht => hquote ⟨t, ht⟩] at hdeep
    exact absurd hdeep (not_deep_failAt s)

/-- Whatever fuel there is, what is too deep has more openings than there is room for. -/
theorem Bounded.of_fuel (n : Nat) : Bounded n := by
  induction n with
  | zero => exact ⟨fun h => absurd h (not_deep_failAt _), fun h => absurd h (not_deep_failAt _),
      fun h => absurd h (not_deep_failAt _)⟩
  | succ n ih => exact ⟨ih.value_succ, ih.items_succ, ih.members_succ⟩

/-- More brackets than there is room for are too deep, whatever follows them. -/
theorem value_of_brackets {count : Nat} (hcount : room < count) (hn : 2 * room < n)
    (rest : List Char) :
    Json.value n room (List.replicate count '[' ++ rest) = .error (.tooDeep .list) := by
  induction room generalizing n count with
  | zero =>
    obtain ⟨k, rfl, -⟩ := exists_succ hn
    obtain ⟨more, rfl, -⟩ := exists_succ hcount
    rw [List.replicate_succ, List.cons_append, value_bracket, opened, if_pos rfl]
    rfl
  | succ room ih =>
    obtain ⟨k, rfl, hk⟩ := exists_succ hn
    obtain ⟨j, rfl, hj⟩ := exists_succ (show 2 * room + 1 < k by omega)
    obtain ⟨more, rfl, hmore⟩ := exists_succ hcount
    obtain ⟨others, rfl, -⟩ := exists_succ (show room < more by omega)
    have hskip : skip (List.replicate (others + 1) '[' ++ rest) =
        '[' :: (List.replicate others '[' ++ rest) := rfl
    rw [List.replicate_succ, List.cons_append, value_bracket, opened_of_parts hskip (by decide)]
    rw [hskip, items_succ, ← List.cons_append, ← List.replicate_succ, ih (by omega) (by omega)]

end PuzzleContest.Json
