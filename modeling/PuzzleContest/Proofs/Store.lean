import Mathlib.Data.List.Nodup
import PuzzleContest.Contest.Store

/-!
# Laws of the store

A sound store has one try per key and gives its numbers out in order.  On a sound store the three
operations are described by what a look-up finds afterwards.

Main results:

- `Store.find?_eq_some_iff`: a look-up finds exactly the try of its key.
- `Store.Sound.add`, `Store.find?_add`: a new try keeps a store sound, and only its key is new.
- `Store.Sound.replace`, `Store.find?_replace`: a changed try keeps a store sound, and only its key
  is affected.
-/

namespace PuzzleContest.Store

variable {s s' : Store} {t row : Try Nat} {key : Try.Key} {level : String} {start : Moment}

/-- One try per key, numbers given out in order, and only indexes that can be stored. -/
structure Sound (s : Store) : Prop where
  keys_nodup : (s.tries.map (·.key)).Nodup
  ids_eq : s.tries.map (·.id) = List.range s.issued
  storable : ∀ t ∈ s.tries, holds t.key.index = true

theorem sound_empty : Sound {} where
  keys_nodup := List.nodup_nil
  ids_eq := rfl
  storable := by simp

/-! ## Look-ups -/

theorem mem_of_find? (h : s.find? key = some t) : t ∈ s.tries :=
  List.mem_of_find?_eq_some h

theorem key_of_find? (h : s.find? key = some t) : t.key = key := by
  simpa using List.find?_some h

theorem find?_eq_none_iff : s.find? key = none ↔ ∀ t ∈ s.tries, t.key ≠ key := by
  simp [find?]

theorem Sound.eq_of_key (hs : s.Sound) {u : Try Nat} (ht : t ∈ s.tries) (hu : u ∈ s.tries)
    (h : t.key = u.key) : t = u :=
  List.inj_on_of_nodup_map hs.keys_nodup ht hu h

theorem Sound.eq_of_id (hs : s.Sound) {u : Try Nat} (ht : t ∈ s.tries) (hu : u ∈ s.tries)
    (h : t.id = u.id) : t = u := by
  have hids : (s.tries.map (·.id)).Nodup := by
    rw [hs.ids_eq]
    exact List.nodup_range
  exact List.inj_on_of_nodup_map hids ht hu h

/-- A look-up finds exactly the try of its key. -/
theorem find?_eq_some_iff (hs : s.Sound) : s.find? key = some t ↔ t ∈ s.tries ∧ t.key = key := by
  constructor
  · intro h
    exact ⟨mem_of_find? h, key_of_find? h⟩
  · rintro ⟨ht, hkey⟩
    cases hfind : s.find? key with
    | none => exact absurd hkey (find?_eq_none_iff.1 hfind t ht)
    | some u =>
      have hu : u = t :=
        hs.eq_of_key (mem_of_find? hfind) ht ((key_of_find? hfind).trans hkey.symm)
      rw [hu]

/-! ## New tries -/

theorem add?_eq_some_iff :
    s.add? key level start = some (t, s') ↔
      s.find? key = none ∧ t = fresh s.issued key level start ∧
        s' = { tries := s.tries ++ [t], issued := s.issued + 1 } := by
  unfold add?
  cases hfind : s.find? key with
  | some u => simp
  | none =>
    simp only [Option.some.injEq, Prod.mk.injEq, true_and]
    constructor
    · rintro ⟨rfl, rfl⟩
      exact ⟨rfl, rfl⟩
    · rintro ⟨rfl, rfl⟩
      exact ⟨rfl, rfl⟩

/-- A new try keeps a store sound. -/
theorem Sound.add (hs : s.Sound) (hindex : holds key.index = true)
    (h : s.add? key level start = some (t, s')) : s'.Sound := by
  obtain ⟨hnone, rfl, rfl⟩ := add?_eq_some_iff.1 h
  refine ⟨?_, ?_, ?_⟩
  · rw [List.map_append, List.nodup_append']
    refine ⟨hs.keys_nodup, List.nodup_singleton _, ?_⟩
    intro k hk hk'
    obtain ⟨u, hu, rfl⟩ := List.mem_map.1 hk
    have hkey : u.key = key := by simpa [fresh] using hk'
    exact find?_eq_none_iff.1 hnone u hu hkey
  · rw [List.map_append, hs.ids_eq, List.range_succ]
    rfl
  · intro u hu
    rcases List.mem_append.1 hu with hu | hu
    · exact hs.storable u hu
    · rw [List.mem_singleton.1 hu]
      exact hindex

/-- After a new try was made, a look-up of its key finds it, and any other one is as before. -/
theorem find?_add (h : s.add? key level start = some (t, s')) (k : Try.Key) :
    s'.find? k = if k = key then some t else s.find? k := by
  obtain ⟨hnone, rfl, rfl⟩ := add?_eq_some_iff.1 h
  simp only [find?, List.find?_append, List.find?_singleton, fresh]
  by_cases hk : k = key
  · subst hk
    have hnone' : s.tries.find? (fun u => u.key = k) = none := hnone
    simp [hnone']
  · have hne : ¬key = k := fun h => hk h.symm
    simp [hk, hne]

/-! ## Changed tries -/

/-- On the tries of a sound store, a change of one of them affects no key. -/
theorem Sound.key_replace (hs : s.Sound) (hrow : s.find? t.key = some row) (hid : t.id = row.id)
    {u : Try Nat} (hu : u ∈ s.tries) : (if u.id = t.id then t else u).key = u.key := by
  by_cases h : u.id = t.id
  · have huRow : u = row := hs.eq_of_id hu (mem_of_find? hrow) (h.trans hid)
    rw [if_pos h, huRow, key_of_find? hrow]
  · rw [if_neg h]

/-- A changed try keeps a store sound. -/
theorem Sound.replace (hs : s.Sound) (hrow : s.find? t.key = some row) (hid : t.id = row.id) :
    (s.replace t).Sound := by
  have hkeys : (s.replace t).tries.map (·.key) = s.tries.map (·.key) := by
    simp only [Store.replace, List.map_map]
    exact List.map_congr_left fun u hu => hs.key_replace hrow hid hu
  have hids : (s.replace t).tries.map (·.id) = s.tries.map (·.id) := by
    simp only [Store.replace, List.map_map]
    refine List.map_congr_left fun u _ => ?_
    by_cases h : u.id = t.id <;> simp [h]
  refine ⟨?_, ?_, ?_⟩
  · rw [hkeys]
    exact hs.keys_nodup
  · rw [hids]
    exact hs.ids_eq
  · intro u hu
    obtain ⟨v, hv, rfl⟩ := List.mem_map.1 hu
    rw [hs.key_replace hrow hid hv]
    exact hs.storable v hv

/-- After a try was changed, a look-up of its key finds the new version, and any other one is as
before. -/
theorem find?_replace (hs : s.Sound) (hrow : s.find? t.key = some row) (hid : t.id = row.id)
    (k : Try.Key) : (s.replace t).find? k = if k = t.key then some t else s.find? k := by
  have hs' : (s.replace t).Sound := hs.replace hrow hid
  by_cases hk : k = t.key
  · rw [if_pos hk, find?_eq_some_iff hs']
    refine ⟨?_, hk.symm⟩
    have hmem : (if row.id = t.id then t else row) ∈ (s.replace t).tries :=
      List.mem_map_of_mem (mem_of_find? hrow)
    rwa [if_pos hid.symm] at hmem
  · rw [if_neg hk]
    ext u
    rw [find?_eq_some_iff hs', find?_eq_some_iff hs]
    constructor
    · rintro ⟨hu, rfl⟩
      obtain ⟨v, hv, rfl⟩ := List.mem_map.1 hu
      by_cases h : v.id = t.id
      · rw [if_pos h] at hk
        exact absurd rfl hk
      · rw [if_neg h]
        exact ⟨hv, rfl⟩
    · rintro ⟨hu, rfl⟩
      refine ⟨List.mem_map.2 ⟨u, hu, ?_⟩, rfl⟩
      have hne : ¬u.id = t.id := by
        intro h
        have huRow : u = row := hs.eq_of_id hu (mem_of_find? hrow) (h.trans hid)
        exact hk (huRow ▸ key_of_find? hrow)
      rw [if_neg hne]

/-- On a sound store a try is replaced where it stands, and nothing else. -/
theorem Sound.tries_replace (hs : s.Sound) (hrow : row ∈ s.tries) (hid : t.id = row.id) :
    (s.replace t).tries = s.tries.map fun u => if u = row then t else u := by
  refine List.map_congr_left fun u hu => ?_
  by_cases h : u = row
  · simp [h, hid]
  · have hne : u.id ≠ t.id := fun heq => h (hs.eq_of_id hu hrow (heq.trans hid))
    simp [h, hne]

/-- On a sound store a key has its try alone. -/
theorem Sound.filter_key (hs : s.Sound) (hrow : s.find? key = some row) :
    (s.tries.filter fun u => u.key = key) = [row] := by
  have hkeys : ((s.tries.filter fun u => u.key = key).map (·.key)).Nodup :=
    hs.keys_nodup.sublist (List.filter_sublist.map _)
  have hmem : ∀ u, u ∈ (s.tries.filter fun u => u.key = key) ↔ u ∈ [row] := by
    intro u
    rw [List.mem_filter, decide_eq_true_eq, ← find?_eq_some_iff hs, hrow, Option.some.injEq,
      List.mem_singleton]
    exact eq_comm
  have hnodup : (s.tries.filter fun u => u.key = key).Nodup := .of_map _ hkeys
  exact List.perm_singleton.1 <|
    (List.perm_ext_iff_of_nodup hnodup (List.nodup_singleton row)).2 hmem

end PuzzleContest.Store
