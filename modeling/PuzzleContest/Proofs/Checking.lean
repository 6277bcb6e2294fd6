import PuzzleContest.Form.Library
import PuzzleContest.Proofs.Library

/-!
# The library of forms keeps to the documents

A form has a result exactly if each of its fields has one.  The library of forms accepts and writes each
type as the documents of a library promise.

Main results:

- `Checked.seq_eq_ok`, `Checked.items_eq_ok`: checks together pass exactly if each does.
- `Form.validateFields_eq_ok`: a record is filled in field by field.
- `Form.documented`: the library of forms does what the documents promise.
-/

namespace PuzzleContest

/-! ## Checks -/

namespace Checked

variable {α β : Type} {x : Checked α} {a : α} {b : β}

theorem map_eq_ok {f : α → β} : f <$> x = .ok b ↔ ∃ a, x = .ok a ∧ f a = b := by
  change (ok f).apply x = .ok b ↔ _
  rw [apply_eq_ok]
  simp

theorem seq_eq_ok {f : Checked (α → β)} : f <*> x = .ok b ↔ ∃ g a, f = .ok g ∧ x = .ok a ∧ g a = b :=
  apply_eq_ok

@[simp]
theorem about_eq_ok {v : Json} : x.about v = .ok a ↔ x = .ok a := by
  cases x <;> simp [about]

@[simp]
theorem within_eq_ok {step : Place} : x.within step = .ok a ↔ x = .ok a := by
  cases x <;> simp [within]

@[simp]
theorem reject_ne_ok {kind : Complaint.Kind} : reject kind ≠ .ok a := by
  simp [reject]

/-- A list passes exactly if its items do. -/
theorem items_eq_ok {check : Json → Checked α} {n : Nat} {vs : List Json} {as : List α} :
    items check n vs = .ok as ↔ List.Forall₂ (fun v a => check v = .ok a) vs as := by
  induction vs generalizing n as with
  | nil => cases as <;> simp [items]
  | cons v rest ih => cases as <;> simp [items, seq_eq_ok, map_eq_ok, ih]

end Checked

open Checked

namespace Form

/-! ## Values and fields -/

variable {v : Json} {d : Datum} {options : Schema.Options} {members : List (Json.Spelling × Json)}

theorem text_eq_ok {s : Json.Spelling} : text v = .ok s ↔ v = s.value := by
  cases v <;> cases s <;> simp [text, Json.Spelling.value, eq_comm]

theorem choice_eq_ok {words : List String} {s : Json.Spelling} :
    choice words v = .ok s ↔ ∃ word ∈ words, v = .text word ∧ ↑word = s := by
  cases v with
  | text t =>
    rw [choice]
    by_cases ht : t ∈ words
    · simp [ht]
    · simp only [List.contains_iff_mem, ht, if_false, reject_ne_ok, Json.text.injEq, false_iff]
      rintro ⟨word, hword, rfl, -⟩
      exact ht hword
  | _ => simp [choice]

theorem objectElse_eq_ok {α : Type} {a : α} {kind : Complaint.Kind}
    {read : List (Json.Spelling × Json) → Checked α} :
    objectElse kind v read = .ok a ↔ ∃ members, v = .object members ∧ read members = .ok a := by
  cases v <;> simp [objectElse]

theorem list_eq_ok {α : Type} {read : Json → Checked α} {as : List α} : list read v = .ok as ↔
    ∃ vs, v = .list vs ∧ List.Forall₂ (fun v a => read v = .ok a) vs as := by
  cases v <;> simp [list, items_eq_ok]

theorem moment_eq_ok {m : Moment} : moment v = .ok m ↔ Moment.ofJson? v = .ok m := by
  unfold moment
  split <;> simp_all

theorem nullable_eq_ok {s : Schema} : validate (.nullable s) v = .ok d ↔
    v = .null ∧ d = .null ∨ v ≠ .null ∧ validate s v = .ok d := by
  cases v <;> simp [validate, eq_comm]

theorem declared_eq_ok {field : Field} {read : Json → Checked Datum} :
    declared options field members read = .ok d ↔
      (∃ found v, find? members (field.names options) = some (found, v) ∧ read v = .ok d) ∨
        find? members (field.names options) = none ∧ field.default = some d := by
  unfold declared
  cases hfind : find? members (field.names options) with
  | some given =>
    obtain ⟨found, v⟩ := given
    simp
  | none => cases hdefault : field.default <;> simp

/-- A record is filled in field by field. -/
theorem validateFields_eq_ok {fields : List (Field × Schema)} {ds : List (String × Datum)} :
    validateFields options members fields = .ok ds ↔
      List.Forall₂ (library.Fills options members) fields ds := by
  induction fields generalizing ds with
  | nil => cases ds <;> simp [validateFields]
  | cons first rest ih =>
    obtain ⟨field, s⟩ := first
    simp only [validateFields, seq_eq_ok, map_eq_ok, declared_eq_ok, List.forall₂_cons_left_iff, ih]
    constructor
    · rintro ⟨_, others, ⟨d, hd, rfl⟩, hothers, rfl⟩
      refine ⟨_, others, ?_, hothers, rfl⟩
      rcases hd with ⟨found, v, hfind, hvalue⟩ | ⟨hfind, hdefault⟩
      · exact .given hfind hvalue
      · exact .missing hfind hdefault
    · rintro ⟨first, others, hfirst, hothers, rfl⟩
      cases hfirst with
      | given hfind hvalue => exact ⟨_, others, ⟨_, .inl ⟨_, _, hfind, hvalue⟩, rfl⟩, hothers, rfl⟩
      | missing hfind hdefault => exact ⟨_, others, ⟨_, .inr ⟨hfind, hdefault⟩, rfl⟩, hothers, rfl⟩

theorem dumpFields_eq (outer : Bool) (fields : List (Field × Schema)) (ds : List (String × Datum)) :
    dumpFields outer fields ds = library.written outer fields ds := by
  induction fields generalizing ds with
  | nil => rfl
  | cons first rest ih =>
    cases ds with
    | nil => rfl
    | cons d others => rw [dumpFields, ih]; rfl

/-! ## The library -/

/-- The library of forms does what the documents promise. -/
theorem documented : library.Documented where
  text := by
    intro v d
    change Datum.text <$> text v = .ok d ↔ _
    simp only [map_eq_ok, text_eq_ok, eq_comm (a := d)]
  integer := rfl
  integer_type h := by
    obtain ⟨n, -, rfl⟩ := map_eq_ok.1 h
    exact ⟨n, rfl⟩
  number _ := rfl
  number_type h := by
    obtain ⟨x, -, rfl⟩ := map_eq_ok.1 h
    exact ⟨x, rfl⟩
  moment {s m} h := by
    refine map_eq_ok.2 ⟨m, moment_eq_ok.2 ?_, rfl⟩
    rw [Moment.ofJson?, h.1, Option.some_or, Moment.possible, if_pos h.2]
  moment_type h := by
    obtain ⟨m, hm, rfl⟩ := map_eq_ok.1 h
    exact ⟨m, Moment.writable_of_ofJson? (moment_eq_ok.1 hm), rfl⟩
  choice := by
    intro words v d
    change Datum.text <$> choice words v = .ok d ↔ _
    rw [map_eq_ok]
    constructor
    · rintro ⟨s, hs, rfl⟩
      obtain ⟨word, hword, rfl, rfl⟩ := choice_eq_ok.1 hs
      exact ⟨word, hword, rfl, rfl⟩
    · rintro ⟨word, hword, rfl, rfl⟩
      exact ⟨word, choice_eq_ok.2 ⟨word, hword, rfl, rfl⟩, rfl⟩
  nullable := nullable_eq_ok
  list := by
    intro s v d
    change Datum.list <$> list (validate s) v = .ok d ↔ _
    rw [map_eq_ok]
    constructor
    · rintro ⟨ds, hds, rfl⟩
      obtain ⟨vs, rfl, h⟩ := list_eq_ok.1 hds
      exact ⟨vs, ds, rfl, rfl, h⟩
    · rintro ⟨vs, ds, rfl, rfl, h⟩
      exact ⟨ds, list_eq_ok.2 ⟨vs, rfl, h⟩, rfl⟩
  adjusted := map_eq_ok
  record := by
    intro options fields v d
    change objectElse _ v _ = .ok d ↔ _
    simp only [objectElse_eq_ok, map_eq_ok, validateFields_eq_ok]
    constructor
    · rintro ⟨members, rfl, ds, h, rfl⟩
      exact ⟨members, ds, rfl, rfl, h⟩
    · rintro ⟨members, ds, rfl, rfl, h⟩
      exact ⟨members, rfl, ds, h, rfl⟩
  dump_text := rfl
  dump_integer := rfl
  dump_number _ := rfl
  dump_moment _ m h := ⟨m.render "Z", ⟨Moment.read?_render false h, h.possible⟩, rfl⟩
  dump_choice _ := rfl
  dump_null := rfl
  dump_nullable {outer s d} h := by
    cases d with
    | null => exact absurd rfl h
    | _ => rfl
  dump_list := rfl
  dump_adjusted := rfl
  dump_record {outer options fields ds} := congrArg Json.object (dumpFields_eq outer fields ds)

end Form

end PuzzleContest
