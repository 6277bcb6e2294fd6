import Mathlib.Data.List.Forall2
import Mathlib.Data.List.Nodup
import PuzzleContest.Proofs.Inscription
import PuzzleContest.Schema

/-!
# Libraries that read back what they write

A library that keeps to its documents accepts what such a library has written of accepted data, as those
same data, whatever has been declared: texts and finite numbers are written as they are, moments in the
standard form, and records field by field.

Main definitions:

- `Library.Documented`: what the documents of a library promise.
- `Schema.Admits`, `Schema.Sound`: data of a declared type, and declarations without contradictions.
- `Library.Shows`: what is written of a field.

Main results:

- `Library.Documented.admits`: accepted data are of the declared type.
- `Library.Documented.again`: what one library has written is accepted by another as the same data.
- `Library.Documented.shows`: what is written of each field of a record.
-/

namespace PuzzleContest

/-- A text denotes a moment in the standard form: a date, a time of day with or without a fraction, and
the distance from universal time in hours and minutes if it is known. -/
def Moment.Denoted (s : String) (m : Moment) : Prop :=
  Moment.read? false s.toList = some m ∧ m.isPossible = true

namespace Library

variable (L : Library)

/-- What a declared field of a record is filled with, given the members of an object: what the first
member of its names is accepted as, or else its default. -/
inductive Fills (options : Schema.Options) (members : List (Json.Spelling × Json)) :
    Field × Schema → String × Datum → Prop
  | given {field s found v d} (hfind : Form.find? members (field.names options) = some (found, v))
      (h : L.validate s v = .ok d) : Fills options members (field, s) (field.name, d)
  | missing {field s d} (hfind : Form.find? members (field.names options) = none)
      (h : field.default = some d) : Fills options members (field, s) (field.name, d)

/-- The members that are written of the fields of a record. -/
def written (outer : Bool) (fields : List (Field × Schema)) (ds : List (String × Datum)) :
    List (Json.Spelling × Json) :=
  (fields.zip ds).map fun p => (↑(p.1.1.shown outer), L.dump outer p.1.2 p.2.2)

/-- What the documents of a library promise, type by type. -/
structure Documented : Prop where
  /-- Texts are accepted as they are, and nothing else is accepted for a text. -/
  text {v d} : L.validate .text v = .ok d ↔ ∃ s : Json.Spelling, v = s.value ∧ d = .text s
  /-- An integer is accepted as it is; whatever else is accepted for one is accepted as an integer. -/
  integer {n} : L.validate .integer (.int n) = .ok (.integer n)
  integer_type {v d} : L.validate .integer v = .ok d → ∃ n, d = .integer n
  /-- A finite number is accepted as it is. -/
  number {x} : x.isFinite = true → L.validate .number (.float x) = .ok (.number x)
  number_type {v d} : L.validate .number v = .ok d → ∃ x, d = .number x
  /-- A text in the standard form is accepted as the moment that it denotes. -/
  moment {s m} : Moment.Denoted s m → L.validate .moment (.text s) = .ok (.moment m)
  /-- Accepted moments lie in the years 1 to 9999, at distances of whole minutes. -/
  moment_type {v d} : L.validate .moment v = .ok d → ∃ m : Moment, m.Writable ∧ d = .moment m
  choice {words v d} : L.validate (.choice words) v = .ok d ↔
    ∃ word ∈ words, v = .text word ∧ d = .text word
  nullable {s v d} : L.validate (.nullable s) v = .ok d ↔
    v = .null ∧ d = .null ∨ v ≠ .null ∧ L.validate s v = .ok d
  list {s v d} : L.validate (.list s) v = .ok d ↔
    ∃ vs ds, v = .list vs ∧ d = .list ds ∧ List.Forall₂ (fun v d => L.validate s v = .ok d) vs ds
  adjusted {f s v d} : L.validate (.adjusted f s) v = .ok d ↔ ∃ u, L.validate s v = .ok u ∧ f u = d
  /-- Members that are not declared do not count. -/
  record {options fields v d} : L.validate (.record options fields) v = .ok d ↔
    ∃ members ds, v = .object members ∧ d = .record ds ∧
      List.Forall₂ (L.Fills options members) fields ds
  dump_text {outer} {s : Json.Spelling} : L.dump outer .text (.text s) = s.value
  dump_integer {outer n} : L.dump outer .integer (.integer n) = .int n
  dump_number {outer x} : x.isFinite = true → L.dump outer .number (.number x) = .float x
  /-- Moments are written in the standard form. -/
  dump_moment (outer : Bool) {m : Moment} : m.Writable →
    ∃ s, Moment.Denoted s m ∧ L.dump outer .moment (.moment m) = .text s
  dump_choice {outer words} {word : String} : word ∈ words →
    L.dump outer (.choice words) (.text word) = .text word
  dump_null {outer s} : L.dump outer (.nullable s) .null = .null
  dump_nullable {outer s d} : d ≠ .null → L.dump outer (.nullable s) d = L.dump outer s d
  dump_list {outer s ds} : L.dump outer (.list s) (.list ds) = .list (ds.map (L.dump outer s))
  dump_adjusted {outer f s d} : L.dump outer (.adjusted f s) d = L.dump outer s d
  dump_record {outer options fields ds} :
    L.dump outer (.record options fields) (.record ds) = .object (L.written outer fields ds)

end Library

/-! ## Data of a declared type -/

namespace Schema

mutual

/-- Data of a declared type, all of whose numbers have a property. -/
def Admits (p : Binary64 → Prop) : Schema → Datum → Prop
  | .text, d => ∃ s, d = .text s
  | .integer, d => ∃ n, d = .integer n
  | .number, d => ∃ x, p x ∧ d = .number x
  | .moment, d => ∃ m : Moment, m.Writable ∧ d = .moment m
  | .choice words, d => ∃ word ∈ words, d = .text (.plain word)
  | .nullable s, d => d = .null ∨ Admits p s d
  | .list s, d => ∃ ds, d = .list ds ∧ ∀ x ∈ ds, Admits p s x
  | .adjusted f s, d => ∃ u, Admits p s u ∧ f u = d
  | .record _ fields, d => ∃ ds, d = .record ds ∧ AdmitsFields p fields ds

/-- Data of the declared fields of a record. -/
def AdmitsFields (p : Binary64 → Prop) : List (Field × Schema) → List (String × Datum) → Prop
  | [], ds => ds = []
  | (field, s) :: rest, ds =>
    ∃ d others, ds = (field.name, d) :: others ∧ Admits p s d ∧ AdmitsFields p rest others

end

section Admits

variable {p : Binary64 → Prop} {options : Options} {field : Field} {s : Schema}
  {rest : List (Field × Schema)} {name : String} {d : Datum} {ds : List (String × Datum)}

@[simp] theorem admits_text (t : Json.Spelling) : Admits p .text (.text t) := ⟨t, rfl⟩

@[simp] theorem admits_integer (n : Int) : Admits p .integer (.integer n) := ⟨n, rfl⟩

@[simp] theorem admits_number {x : Binary64} : Admits p .number (.number x) ↔ p x := by
  simp [Admits]

@[simp] theorem admits_record : Admits p (.record options rest) (.record ds) ↔ AdmitsFields p rest ds := by
  simp [Admits]

@[simp] theorem admitsFields_nil : AdmitsFields p [] [] := rfl

@[simp] theorem admitsFields_cons : AdmitsFields p ((field, s) :: rest) ((name, d) :: ds) ↔
    name = field.name ∧ Admits p s d ∧ AdmitsFields p rest ds := by
  simp [AdmitsFields, and_assoc]

end Admits

/-- All numbers are admitted. -/
abbrev Any : Binary64 → Prop := fun _ => True

/-- Finite numbers are admitted. -/
abbrev Finite : Binary64 → Prop := fun x => x.isFinite = true

mutual

/-- A declaration without contradictions: functions keep the type of what they adjust, and change nothing
when they are applied again; defaults are of their types, and no two fields of a record are written under
one name. -/
def Sound : Schema → Prop
  | .text | .integer | .number | .moment | .choice _ => True
  | .nullable s => Sound s
  | .list s => Sound s
  | .adjusted f s => Sound s ∧ ∀ d, Admits Finite s d → Admits Finite s (f d) ∧ f (f d) = f d
  | .record _ fields => (fields.map fun p => p.1.shown true).Nodup ∧ SoundFields fields

/-- Declared fields without contradictions. -/
def SoundFields : List (Field × Schema) → Prop
  | [] => True
  | (field, s) :: rest =>
    Sound s ∧ (∀ d, field.default = some d → Admits Any s d) ∧ SoundFields rest

end

end Schema

/-! ## Accepted data -/

namespace Library.Documented

open Schema

variable {L : Library}

mutual

/-- Accepted data are of the declared type. -/
theorem admits (hL : L.Documented) : (s : Schema) → s.Sound → ∀ {v d}, L.validate s v = .ok d →
    s.Admits Any d
  | .text, _, v, d, h => by
    obtain ⟨t, -, rfl⟩ := hL.text.1 h
    exact ⟨t, rfl⟩
  | .integer, _, v, d, h => hL.integer_type h
  | .number, _, v, d, h => by
    obtain ⟨x, rfl⟩ := hL.number_type h
    exact ⟨x, trivial, rfl⟩
  | .moment, _, v, d, h => hL.moment_type h
  | .choice words, _, v, d, h => by
    obtain ⟨word, hword, -, rfl⟩ := hL.choice.1 h
    exact ⟨word, hword, rfl⟩
  | .nullable s, hs, v, d, h => by
    rcases hL.nullable.1 h with ⟨-, rfl⟩ | ⟨-, hvalue⟩
    · exact .inl rfl
    · exact .inr (admits hL s hs hvalue)
  | .list s, hs, v, d, h => by
    obtain ⟨vs, ds, rfl, rfl, hitems⟩ := hL.list.1 h
    refine ⟨ds, rfl, fun x hx => ?_⟩
    obtain ⟨i, hi, rfl⟩ := List.getElem_of_mem hx
    exact admits hL s hs (hitems.get (by rw [hitems.length_eq]; exact hi) hi)
  | .adjusted f s, hs, v, d, h => by
    obtain ⟨u, hu, rfl⟩ := hL.adjusted.1 h
    exact ⟨u, admits hL s hs.1 hu, rfl⟩
  | .record options fields, hs, v, d, h => by
    obtain ⟨members, ds, -, rfl, hfields⟩ := hL.record.1 h
    exact ⟨ds, rfl, admitsFields hL fields hs.2 hfields⟩

/-- The fields of accepted data are of the declared types. -/
theorem admitsFields (hL : L.Documented) : (fields : List (Field × Schema)) →
    SoundFields fields → ∀ {options members ds}, List.Forall₂ (L.Fills options members) fields ds →
      AdmitsFields Any fields ds
  | [], _, options, members, ds, h => List.forall₂_nil_left_iff.1 h
  | (field, s) :: rest, hs, options, members, ds, h => by
    obtain ⟨x, others, hx, hothers, rfl⟩ := List.forall₂_cons_left_iff.1 h
    cases hx with
    | given hfind hvalue =>
      exact ⟨_, _, rfl, admits hL s hs.1 hvalue, admitsFields hL rest hs.2.2 hothers⟩
    | missing hfind hdefault =>
      exact ⟨_, _, rfl, hs.2.1 _ hdefault, admitsFields hL rest hs.2.2 hothers⟩

end

/-! ## Written data -/

/-- Data other than null are not written as null. -/
theorem dump_ne_null (hL : L.Documented) : (s : Schema) → s.Sound → ∀ {d}, s.Admits Finite d →
    d ≠ .null → L.dump true s d ≠ .null
  | .text, _, d, ⟨t, h⟩, _ => by
    subst h
    rw [hL.dump_text]
    cases t <;> exact Json.noConfusion
  | .integer, _, d, ⟨n, h⟩, _ => by
    subst h
    rw [hL.dump_integer]
    exact Json.noConfusion
  | .number, _, d, ⟨x, hx, h⟩, _ => by
    subst h
    rw [hL.dump_number hx]
    exact Json.noConfusion
  | .moment, _, d, ⟨m, hm, h⟩, _ => by
    subst h
    obtain ⟨t, -, ht⟩ := hL.dump_moment true hm
    rw [ht]
    exact Json.noConfusion
  | .choice words, _, d, ⟨word, hword, h⟩, _ => by
    subst h
    rw [hL.dump_choice hword]
    exact Json.noConfusion
  | .nullable s, hs, d, h, hd => by
    rw [hL.dump_nullable hd]
    exact dump_ne_null hL s hs (h.resolve_left hd) hd
  | .list s, _, d, ⟨ds, h, _⟩, _ => by
    subst h
    rw [hL.dump_list]
    exact Json.noConfusion
  | .adjusted f s, hs, d, ⟨u, hu, h⟩, hd => by
    subst h
    rw [hL.dump_adjusted]
    exact dump_ne_null hL s hs.1 (hs.2 u hu).1 hd
  | .record options fields, _, d, ⟨ds, h, _⟩, _ => by
    subst h
    rw [hL.dump_record]
    exact Json.noConfusion

theorem length_of_admitsFields {p : Binary64 → Prop} : {fields : List (Field × Schema)} →
    {ds : List (String × Datum)} → AdmitsFields p fields ds → fields.length = ds.length
  | [], ds, h => by
    rw [AdmitsFields] at h
    rw [h]
    rfl
  | _ :: rest, ds, h => by
    obtain ⟨d, others, rfl, -, hrest⟩ := h
    exact congrArg (· + 1) (length_of_admitsFields hrest)

/-- The members that are written have different names. -/
theorem lookup_written {fields : List (Field × Schema)} {ds : List (String × Datum)}
    (hnames : (fields.map fun p => p.1.shown true).Nodup) (hlength : fields.length = ds.length) :
    ∀ m ∈ L.written true fields ds, Json.lookup m.1 (L.written true fields ds) = some m.2 := by
  have hkeys : ((L.written true fields ds).map Prod.fst).Nodup := by
    have hzip : (fields.zip ds).map Prod.fst = fields := List.map_fst_zip (by omega)
    have hfst : (L.written true fields ds).map Prod.fst =
        (fields.map fun p => p.1.shown true).map Json.Spelling.plain := by
      conv_rhs => rw [← hzip]
      simp [Library.written, List.map_map, Function.comp_def]
    rw [hfst]
    exact hnames.map fun _ _ => Json.Spelling.plain.inj
  intro m hm
  exact Json.lookup_of_mem hkeys hm

theorem find?_names {options : Schema.Options} {field : Field} {v : Json}
    {members : List (Json.Spelling × Json)} (h : Json.lookup (field.shown true) members = some v) :
    Form.find? members (field.names options) = some (field.shown true, v) := by
  unfold Field.names Field.shown at *
  cases houter : field.outerName with
  | none =>
    rw [houter] at h
    simp only [if_true, Option.getD_none] at h
    simp [Form.find?, h]
  | some outer =>
    rw [houter] at h
    simp only [if_true, Option.getD_some] at h
    cases options.byName <;> simp [Form.find?, h]

variable {W : Library}

mutual

/-- What a library has written of data of a declared type is accepted as the same data, by every
library. -/
theorem again (hL : L.Documented) (hW : W.Documented) : (s : Schema) → s.Sound → ∀ {d},
    s.Admits Finite d → L.validate s (W.dump true s d) = .ok d
  | .text, _, d, ⟨t, h⟩ => by
    subst h
    rw [hW.dump_text]
    exact hL.text.2 ⟨t, rfl, rfl⟩
  | .integer, _, d, ⟨n, h⟩ => by
    subst h
    rw [hW.dump_integer]
    exact hL.integer
  | .number, _, d, ⟨x, hx, h⟩ => by
    subst h
    rw [hW.dump_number hx]
    exact hL.number hx
  | .moment, _, d, ⟨m, hm, h⟩ => by
    subst h
    obtain ⟨t, hdenoted, ht⟩ := hW.dump_moment true hm
    rw [ht]
    exact hL.moment hdenoted
  | .choice words, _, d, ⟨word, hword, h⟩ => by
    subst h
    rw [hW.dump_choice hword]
    exact hL.choice.2 ⟨word, hword, rfl, rfl⟩
  | .nullable s, hs, d, h => by
    by_cases hd : d = .null
    · rw [hd, hW.dump_null]
      exact hL.nullable.2 (.inl ⟨rfl, rfl⟩)
    · have hadmits := h.resolve_left hd
      rw [hW.dump_nullable hd]
      exact hL.nullable.2 (.inr ⟨dump_ne_null hW s hs hadmits hd, again hL hW s hs hadmits⟩)
  | .list s, hs, d, ⟨ds, h, hitems⟩ => by
    subst h
    rw [hW.dump_list]
    refine hL.list.2 ⟨_, _, rfl, rfl, ?_⟩
    rw [List.forall₂_map_left_iff, List.forall₂_same]
    exact fun x hx => again hL hW s hs (hitems x hx)
  | .adjusted f s, hs, d, ⟨u, hu, h⟩ => by
    subst h
    obtain ⟨hadmits, hfix⟩ := hs.2 u hu
    rw [hW.dump_adjusted]
    exact hL.adjusted.2 ⟨f u, again hL hW s hs.1 hadmits, hfix⟩
  | .record options fields, hs, d, ⟨ds, h, hfields⟩ => by
    subst h
    rw [hW.dump_record]
    exact hL.record.2 ⟨_, _, rfl, rfl, againFields hL hW fields hs.2 hfields
      (lookup_written hs.1 (length_of_admitsFields hfields))⟩

/-- Written fields fill the fields of the record again. -/
theorem againFields (hL : L.Documented) (hW : W.Documented) : (fields : List (Field × Schema)) →
    SoundFields fields → ∀ {options members ds}, AdmitsFields Finite fields ds →
      (∀ m ∈ W.written true fields ds, Json.lookup m.1 members = some m.2) →
        List.Forall₂ (L.Fills options members) fields ds
  | [], _, options, members, ds, h, _ => by
    rw [AdmitsFields] at h
    rw [h]
    exact .nil
  | (field, s) :: rest, hs, options, members, ds, ⟨d, others, h, hd, hothers⟩, hmembers => by
    subst h
    refine .cons ?_ (againFields hL hW rest hs.2.2 hothers fun m hm => ?_)
    · have hlookup := hmembers (↑(field.shown true), W.dump true s d) (List.mem_cons_self ..)
      exact .given (find?_names hlookup) (again hL hW s hs.1 hd)
    · exact hmembers m (List.mem_cons_of_mem _ hm)

end

end Library.Documented

/-! ## What is written of a field -/

namespace Library

/-- What is written of a field of a record: what has been given for it, or its default. -/
inductive Shows (L : Library) (field : Field) (s : Schema) : Option Json → Option Json → Prop
  | given {v d} (h : L.validate s v = .ok d) : Shows L field s (some v) (some (L.dump true s d))
  | missing {d} (h : field.default = some d) : Shows L field s none (some (L.dump true s d))

variable {L : Library} {options : Schema.Options} {members : List (Json.Spelling × Json)}
  {fields : List (Field × Schema)} {ds : List (String × Datum)} {field : Field} {s : Schema}

/-- Each field is written as it has been filled. -/
theorem shows_of_fills (hnames : (fields.map fun p => p.1.shown true).Nodup)
    (h : List.Forall₂ (L.Fills options members) fields ds) (hmem : (field, s) ∈ fields) :
    L.Shows field s ((Form.find? members (field.names options)).map Prod.snd)
      (Json.lookup (field.shown true) (L.written true fields ds)) := by
  obtain ⟨i, hi, hfield⟩ := List.getElem_of_mem hmem
  have hds : i < ds.length := by
    rw [← h.length_eq]
    exact hi
  have hfills := h.get hi hds
  have hwritten : (↑(field.shown true), L.dump true s ds[i].2) ∈ L.written true fields ds := by
    refine List.mem_map.2 ⟨((field, s), ds[i]), ?_, rfl⟩
    rw [← hfield, ← List.getElem_zip (h := by rw [List.length_zip]; omega)]
    exact List.getElem_mem _
  rw [Documented.lookup_written hnames h.length_eq _ hwritten]
  generalize hd : ds[i] = d at hfills ⊢
  simp only [List.get_eq_getElem, hfield, hd] at hfills
  cases hfills with
  | given hfind hvalue =>
    rw [hfind]
    exact .given hvalue
  | missing hfind hdefault =>
    rw [hfind]
    exact .missing hdefault

theorem find?_map (names : List String) :
    (Form.find? members names).map Prod.snd =
      names.findSome? fun name : String => Json.lookup name members := by
  induction names with
  | nil => rfl
  | cons name others ih =>
    unfold Form.find?
    cases hlookup : Json.lookup name members <;> simp [hlookup, ih]

/-- Each field of an accepted record is written as it has been given, or as its default. -/
theorem Documented.shows {v : Json} {d : Datum} (hL : L.Documented)
    (hs : (Schema.record options fields).Sound) (h : L.validate (.record options fields) v = .ok d)
    (hmem : (field, s) ∈ fields) :
    L.Shows field s ((field.names options).findSome? fun name : String => v.get? name)
      ((L.dump true (.record options fields) d).get? (field.shown true)) := by
  obtain ⟨members, ds, rfl, rfl, hfills⟩ := hL.record.1 h
  have hshows := shows_of_fills hs.1 hfills hmem
  rw [find?_map] at hshows
  rw [hL.dump_record]
  exact hshows

/-- The same for a field without an outer name. -/
theorem Documented.shows_own {v : Json} {d : Datum} (hL : L.Documented)
    (hs : (Schema.record options fields).Sound) (h : L.validate (.record options fields) v = .ok d)
    (hmem : (field, s) ∈ fields) (hown : field.outerName = none) :
    L.Shows field s (v.get? field.name) ((L.dump true (.record options fields) d).get? field.name) := by
  have hshows := hL.shows hs h hmem
  have hnames : field.names options = [field.name] := by rw [Field.names, hown]
  have hshown : field.shown true = field.name := by
    rw [Field.shown, if_pos rfl, hown, Option.getD_none]
  rw [hnames, hshown, List.findSome?_singleton] at hshows
  exact hshows

/-- Members that do not concern the fields of a record do not concern what they are filled with. -/
theorem Fills.congr {others : List (Json.Spelling × Json)} {d : String × Datum}
    (hfind : Form.find? others (field.names options) = Form.find? members (field.names options))
    (h : L.Fills options members (field, s) d) : L.Fills options others (field, s) d := by
  cases h with
  | given h hvalue => exact .given (hfind.trans h) hvalue
  | missing h hdefault => exact .missing (hfind.trans h) hdefault

end Library

end PuzzleContest
