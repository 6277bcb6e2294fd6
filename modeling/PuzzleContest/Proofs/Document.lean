import Mathlib.Data.List.Induction
import PuzzleContest.Proofs.Depth

/-!
# What a whole text says

A text says a value if the grammar derives it and leaves nothing but white space.  The reader gives this
value unless the text is too deep for it.  An object has its members as they are written; of those with
one name the last counts.

Main definitions:

- `Json.Spells`, `Json.SpellsObject`: what a whole text says.
- `Json.TooDeep`: the containers of a text lie too deep for a reader.
- `Json.IsLast`: the last member of a name.

Main results:

- `Json.Spells.unique`: a text says one thing at most.
- `Json.read_eq_ok_iff`: the reader gives what a text says, unless it is too deep.
- `Json.openings_of_tooDeep`, `Json.read_of_brackets`: which texts are too deep.
- `Json.lookup_collect_iff`: of members with one name the last counts.
-/

namespace PuzzleContest.Json

variable {room : Nat} {s rest : List Char}

/-! ## Whole texts -/

/-- A whole text says a value: there is only white space around it. -/
def Spells (text : String) (v : Json) : Prop :=
  ∃ room rest, Derives room (.value v) (skip text.toList) rest ∧ skip rest = []

/-- A whole text says an object with these members, as they are written. -/
def SpellsObject (text : String) (ms : List (Spelling × Json)) : Prop :=
  ∃ room rest, Derives room (.object ms) (skip text.toList) rest ∧ skip rest = []

/-- The containers of a text lie too deep for a reader with so much room. -/
def TooDeep (room : Nat) (text : String) : Prop :=
  ∃ container, read room text = .error (.tooDeep container)

variable {text : String} {v w : Json}

/-- Only an object of the grammar says an object. -/
theorem Derives.of_value_object {members : List (Spelling × Json)}
    (h : Derives room (.value (.object members)) s rest) :
    ∃ ms, Derives room (.object ms) s rest ∧ members = collect [] ms := by
  generalize hp : Phrase.value (.object members) = p at h
  cases h with
  | @text room s rest x h =>
    rw [Phrase.value.injEq] at hp
    cases x <;> simp [Spelling.value] at hp
  | word h =>
    rw [Phrase.value.injEq] at hp
    rcases (word?_eq_some h).2.2 with rfl | ⟨b, rfl⟩ | ⟨x, rfl⟩ <;> simp at hp
  | number h =>
    rw [Phrase.value.injEq] at hp
    rcases (number_eq_ok h).2 with ⟨n, rfl⟩ | ⟨x, rfl⟩ <;> simp at hp
  | ofObject h =>
    rw [Phrase.value.injEq, Json.object.injEq] at hp
    exact ⟨_, h, hp⟩
  | emptyList | list => simp at hp
  | emptyObject | object | lastItem | moreItems | lastMember | moreMembers => simp at hp

theorem spells_object_iff {members : List (Spelling × Json)} :
    Spells text (.object members) ↔ ∃ ms, SpellsObject text ms ∧ members = collect [] ms := by
  constructor
  · rintro ⟨room, rest, hderives, hend⟩
    obtain ⟨ms, hms, rfl⟩ := hderives.of_value_object
    exact ⟨ms, ⟨room, rest, hms, hend⟩, rfl⟩
  · rintro ⟨ms, ⟨room, rest, hderives, hend⟩, rfl⟩
    exact ⟨room, rest, .ofObject hderives, hend⟩

/-- What a text says is what the reader finds with enough room, and with all room beyond that. -/
theorem Spells.found (h : Spells text v) : ∃ room rest, skip rest = [] ∧ ∀ room', room ≤ room' →
    Json.value (2 * text.toList.length + 2) room' (skip text.toList) = .ok (v, rest) := by
  obtain ⟨room, rest, hderives, hend⟩ := h
  have hlength := skip_length_le text.toList
  have hfound : Json.value (2 * text.toList.length + 2) room (skip text.toList) = .ok (v, rest) :=
    hderives.found _ (by omega)
  refine ⟨room, rest, hend, fun room' hle => ?_⟩
  rw [(Steady.of_fuel _).value hle (hfound ▸ not_deep_ok _), hfound]

/-- A text says one thing at most. -/
theorem Spells.unique (h : Spells text v) (h' : Spells text w) : v = w := by
  obtain ⟨room, rest, -, hfound⟩ := h.found
  obtain ⟨room', rest', -, hfound'⟩ := h'.found
  have heq := (hfound (max room room') (Nat.le_max_left ..)).symm.trans
    (hfound' (max room room') (Nat.le_max_right ..))
  simp only [Except.ok.injEq, Prod.mk.injEq] at heq
  exact heq.1

theorem read_of_ok (h : Json.value (2 * text.toList.length + 2) room (skip text.toList) =
    .ok (v, rest)) (hend : skip rest = []) : read room text = .ok v := by
  simp only [read, h, hend]

theorem value_of_read (h : read room text = .ok v) : ∃ rest, skip rest = [] ∧
    Json.value (2 * text.toList.length + 2) room (skip text.toList) = .ok (v, rest) := by
  unfold read at h
  dsimp only at h
  split at h
  · simp at h
  · rename_i w rest hvalue
    split at h
    · rename_i hend
      rw [Except.ok.injEq] at h
      exact ⟨rest, hend, h ▸ hvalue⟩
    · simp at h

/-- A text is too deep if the reader stops for want of room. -/
theorem tooDeep_iff : TooDeep room text ↔
    Deep (Json.value (2 * text.toList.length + 2) room (skip text.toList)) := by
  unfold TooDeep Deep read
  dsimp only
  constructor
  · rintro ⟨container, h⟩
    split at h
    · rename_i e hvalue
      cases e with
      | malformed | integerTooLong => simp at h
      | tooDeep c => exact ⟨c, hvalue⟩
    · split at h <;> simp at h
  · rintro ⟨container, h⟩
    exact ⟨container, by rw [h]⟩

/-- The reader gives only what a text says. -/
theorem spells_of_read (h : read room text = .ok v) : Spells text v := by
  obtain ⟨rest, hend, hvalue⟩ := value_of_read h
  exact ⟨room, rest, (Sound.of_fuel _).value hvalue, hend⟩

/-- The reader gives what a text says, unless the text is too deep. -/
theorem read_eq_ok_iff (hshallow : ¬TooDeep room text) : read room text = .ok v ↔ Spells text v := by
  constructor
  · exact spells_of_read
  · intro h
    obtain ⟨enough, rest, hend, hfound⟩ := h.found
    rw [tooDeep_iff] at hshallow
    have hsame := (Steady.of_fuel _).value (Nat.le_max_left room enough) hshallow
    exact read_of_ok (hsame.symm.trans (hfound _ (Nat.le_max_right ..))) hend

/-- A text that is too deep opens more brackets and braces than there is room for. -/
theorem openings_of_tooDeep (h : TooDeep room text) : room < openings text.toList :=
  Nat.lt_of_lt_of_le ((Bounded.of_fuel _).value (tooDeep_iff.1 h)) (openings_le (skip_suffix _))

/-- A text that starts with more brackets than there is room for is too deep. -/
theorem read_of_brackets {count : Nat} (hcount : room < count)
    (htext : text.toList = List.replicate count '[' ++ rest) :
    read room text = .error (.tooDeep .list) := by
  have hlength : count ≤ text.toList.length := by
    rw [htext, List.length_append, List.length_replicate]
    exact Nat.le_add_right _ _
  have hskip : skip text.toList = text.toList := by
    obtain ⟨more, rfl, -⟩ := exists_succ hcount
    rw [htext, List.replicate_succ, List.cons_append]
    rfl
  have hvalue : Json.value (2 * text.toList.length + 2) room (skip text.toList) =
      .error (.tooDeep .list) := by
    rw [hskip]
    rw [htext] at hlength ⊢
    exact value_of_brackets hcount (by omega) rest
  simp only [read, hvalue]

/-! ## The last member of a name -/

/-- The last member of a name. -/
def IsLast (ms : List (Spelling × Json)) (name : Spelling) (v : Json) : Prop :=
  ∃ before after, ms = before ++ (name, v) :: after ∧ ∀ m ∈ after, m.1 ≠ name

variable {ms : List (Spelling × Json)} {m : Spelling × Json} {name : Spelling}

theorem collect_append (done ms : List (Spelling × Json)) (m : Spelling × Json) :
    collect done (ms ++ [m]) = setMember m.1 m.2 (collect done ms) := by
  simp [collect]

theorem isLast_append_of_eq (h : m.1 = name) : IsLast (ms ++ [m]) name v ↔ m.2 = v := by
  constructor
  · rintro ⟨before, after, heq, hafter⟩
    rcases List.eq_nil_or_concat' after with rfl | ⟨others, last, rfl⟩
    · have hlast := (List.append_inj' heq rfl).2
      rw [List.cons.injEq] at hlast
      rw [hlast.1]
    · rw [← List.cons_append, ← List.append_assoc] at heq
      have hlast := (List.append_inj' heq rfl).2
      rw [List.cons.injEq] at hlast
      exact absurd h (hlast.1 ▸ hafter last (by simp))
  · rintro rfl
    exact ⟨ms, [], by rw [← h], by simp⟩

theorem isLast_append_of_ne (h : m.1 ≠ name) : IsLast (ms ++ [m]) name v ↔ IsLast ms name v := by
  constructor
  · rintro ⟨before, after, heq, hafter⟩
    rcases List.eq_nil_or_concat' after with rfl | ⟨others, last, rfl⟩
    · have hlast := (List.append_inj' heq rfl).2
      rw [List.cons.injEq] at hlast
      exact absurd (congrArg Prod.fst hlast.1) h
    · rw [← List.cons_append, ← List.append_assoc] at heq
      refine ⟨before, others, (List.append_inj' heq rfl).1, fun x hx => ?_⟩
      exact hafter x (List.mem_append_left [last] hx)
  · rintro ⟨before, after, rfl, hafter⟩
    refine ⟨before, after ++ [m], by simp, fun x hx => ?_⟩
    rcases List.mem_append.1 hx with hx | hx
    · exact hafter x hx
    · rw [List.mem_singleton.1 hx]
      exact h

/-- Of members with one name the last counts. -/
theorem lookup_collect_iff : lookup name (collect [] ms) = some v ↔ IsLast ms name v := by
  induction ms using List.reverseRecOn with
  | nil =>
    constructor
    · intro h
      simp [collect, lookup] at h
    · rintro ⟨before, after, heq, -⟩
      simp at heq
  | append_singleton ms m ih =>
    rw [collect_append]
    by_cases hname : m.1 = name
    · rw [isLast_append_of_eq hname, hname, lookup_setMember, Option.some.injEq]
    · rw [isLast_append_of_ne hname, lookup_setMember_of_ne _ (Ne.symm hname), ih]

end PuzzleContest.Json
