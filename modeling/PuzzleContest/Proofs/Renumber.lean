import PuzzleContest.Proofs.Deed
import PuzzleContest.Proofs.Outlook

/-!
# Tries of two stores

Two stores may have the same tries under different numbers.  What looks the same but for the numbers,
and is known to both, is then the same up to one change of numbers, which is injective.

Main results:

- `Store.numberIn`, `Store.numberIn_injective`: the number that a try has in another store.
- `Try.eq_renumber`, `Announcement.eq_renumber`, `Answer.eq_renumber`: what looks the same is the same
  up to this change of numbers.
-/

namespace PuzzleContest

/-! ## Lists that look the same -/

/-- Lists that look the same are equal up to a change, if their elements that look the same are. -/
theorem eq_map_of_map_eq {α β : Type} {g : α → β} {f : α → α} {xs ys : List α}
    (h : xs.map g = ys.map g) (hxy : ∀ x ∈ xs, ∀ y ∈ ys, g x = g y → x = f y) : xs = ys.map f := by
  induction xs generalizing ys with
  | nil => rw [List.map_eq_nil_iff.1 h.symm, List.map_nil]
  | cons x xs ih =>
    cases ys with
    | nil => exact absurd h (by simp)
    | cons y ys =>
      rw [List.map_cons, List.map_cons, List.cons.injEq] at h
      have hhead := hxy x List.mem_cons_self y List.mem_cons_self h.1
      have htail := ih h.2 fun a ha b hb =>
        hxy a (List.mem_cons_of_mem x ha) b (List.mem_cons_of_mem y hb)
      rw [List.map_cons, ← hhead, ← htail]

/-! ## Numbers in another store -/

namespace Store

variable {s s' : Store} {t u : Try Nat}

/-- The number that the try of a number has in another store.  Where there is none, it is a number
that the other store has not given out yet. -/
def numberIn (s' s : Store) (n : Nat) : Nat :=
  match (s.tries.find? fun t => t.id = n).bind fun t => s'.find? t.key with
  | some row => row.id
  | none => s'.issued + n

theorem numberIn_cases (s' s : Store) (n : Nat) :
    (∃ t ∈ s.tries, ∃ row, t.id = n ∧ s'.find? t.key = some row ∧ s'.numberIn s n = row.id) ∨
      s'.numberIn s n = s'.issued + n := by
  unfold numberIn
  cases hrow : (s.tries.find? fun t => t.id = n).bind fun t => s'.find? t.key with
  | none => exact .inr rfl
  | some row =>
    rcases Option.bind_eq_some_iff.1 hrow with ⟨t, ht, hfind⟩
    have hid : t.id = n := by simpa using List.find?_some ht
    exact .inl ⟨t, List.mem_of_find?_eq_some ht, row, hid, hfind, rfl⟩

theorem Sound.id_lt (hs : s.Sound) (ht : t ∈ s.tries) : t.id < s.issued := by
  have hmem : t.id ∈ s.tries.map (·.id) := List.mem_map.2 ⟨t, ht, rfl⟩
  rw [hs.ids_eq] at hmem
  exact List.mem_range.1 hmem

/-- Different numbers are different ones in another store. -/
theorem numberIn_injective (hs : s.Sound) (hs' : s'.Sound) :
    Function.Injective (s'.numberIn s) := by
  intro n m h
  rcases numberIn_cases s' s n with ⟨t, ht, row, hid, hfind, hn⟩ | hn
  · rcases numberIn_cases s' s m with ⟨u, hu, other, hid', hfind', hm⟩ | hm
    · have hrow : row = other := by
        refine hs'.eq_of_id (mem_of_find? hfind) (mem_of_find? hfind') ?_
        omega
      have hkey : t.key = u.key := by
        rw [← key_of_find? hfind, ← key_of_find? hfind', hrow]
      have htu : t = u := hs.eq_of_key ht hu hkey
      rw [← hid, ← hid', htu]
    · have hlt := hs'.id_lt (mem_of_find? hfind)
      omega
  · rcases numberIn_cases s' s m with ⟨u, hu, other, hid', hfind', hm⟩ | hm
    · have hlt := hs'.id_lt (mem_of_find? hfind')
      omega
    · omega

/-- A try that both stores know is found under its number. -/
theorem numberIn_of_knows (hs : s.Sound) (ht : s'.Knows t.key t) (hu : s.Knows u.key u)
    (hkey : t.key = u.key) : s'.numberIn s u.id = t.id := by
  rcases ht with ⟨-, row', hrow', hid'⟩
  rcases hu with ⟨-, row, hrow, hid⟩
  have hfound : (s.tries.find? fun v => v.id = u.id) = some row := by
    cases hfind : s.tries.find? fun v => v.id = u.id with
    | none =>
      have hnone := List.find?_eq_none.1 hfind row (mem_of_find? hrow)
      exact absurd hid (by simpa using hnone)
    | some v =>
      have hv : v.id = u.id := by simpa using List.find?_some hfind
      rw [hs.eq_of_id (List.mem_of_find?_eq_some hfind) (mem_of_find? hrow) (hv.trans hid.symm)]
  unfold numberIn
  rw [hfound, Option.bind_some, key_of_find? hrow, ← hkey, hrow']
  exact hid'

theorem Knows.self {key : Try.Key} (h : s.Knows key t) : s.Knows t.key t := h.1.symm ▸ h

theorem Sound.knows (hs : s.Sound) (ht : t ∈ s.tries) : s.Knows t.key t :=
  ⟨rfl, t, (find?_eq_some_iff hs).2 ⟨ht, rfl⟩, rfl⟩

end Store

/-! ## What is the same up to numbers -/

/-- A try that both stores know, and that looks the same, is the same up to its number. -/
theorem Try.eq_renumber {s s' : Store} {t u : Try Nat} (hs : s.Sound) (ht : s'.Knows t.key t)
    (hu : s.Knows u.key u) (h : t.renumber blank = u.renumber blank) :
    t = u.renumber (s'.numberIn s) := by
  rcases exists_id_of_renumber h with ⟨n, rfl⟩
  have hn : s'.numberIn s u.id = n := Store.numberIn_of_knows hs ht hu rfl
  unfold renumber
  rw [hn]

theorem Snapshot.eq_renumber {s s' : Store} {x y : Snapshot Nat} (hs : s.Sound)
    (hx : s'.Knows x.entry.key x.entry) (hy : s.Knows y.entry.key y.entry)
    (h : x.renumber blank = y.renumber blank) : x = y.renumber (s'.numberIn s) := by
  have hentry : x.entry = y.entry.renumber (s'.numberIn s) :=
    Try.eq_renumber hs hx hy (congrArg Snapshot.entry h)
  have hplayer : (x.renumber blank).player = (y.renumber blank).player := congrArg Snapshot.player h
  cases x
  exact congrArg₂ Snapshot.mk hentry hplayer

theorem Announcement.eq_renumber {s s' : Store} {x y : Announcement Nat} (hs : s.Sound)
    (hx : s'.Knows x.snapshot.entry.key x.snapshot.entry)
    (hy : s.Knows y.snapshot.entry.key y.snapshot.entry)
    (h : x.renumber blank = y.renumber blank) : x = y.renumber (s'.numberIn s) := by
  have hsnapshot : x.snapshot = y.snapshot.renumber (s'.numberIn s) :=
    Snapshot.eq_renumber hs hx hy (congrArg Announcement.snapshot h)
  have hcompetition : (x.renumber blank).competition = (y.renumber blank).competition :=
    congrArg Announcement.competition h
  have hnews : (x.renumber blank).news = (y.renumber blank).news := congrArg Announcement.news h
  change x.competition = y.competition at hcompetition
  change x.news = y.news at hnews
  cases x
  cases y
  simp only [renumber] at hsnapshot hcompetition hnews ⊢
  rw [hsnapshot, hcompetition, hnews]

/-- The tries in an answer. -/
def Answer.tries : Answer → List (Try Nat)
  | .entry t => [t]
  | .entries ts => ts
  | .snapshots ss => ss.map (·.entry)
  | .verdict v => [v.entry]
  | .document _ => []
  | .permission _ => []
  | .player _ => []
  | .competition _ => []

/-- Answers that look the same, and whose tries the stores know, are the same up to numbers. -/
theorem Answer.eq_renumber {s s' : Store} {a b : Answer} (hs : s.Sound)
    (ha : ∀ t ∈ a.tries, s'.Knows t.key t) (hb : ∀ u ∈ b.tries, s.Knows u.key u)
    (h : a.renumber blank = b.renumber blank) : a = b.renumber (s'.numberIn s) := by
  cases a with
  | entry t =>
    cases b with
    | entry u =>
      have htu : t.renumber blank = u.renumber blank := Answer.entry.inj h
      exact congrArg entry (Try.eq_renumber hs (ha t (by simp [tries])) (hb u (by simp [tries])) htu)
    | _ => exact absurd h (by simp [renumber])
  | entries ts =>
    cases b with
    | entries us =>
      exact congrArg entries (eq_map_of_map_eq (Answer.entries.inj h) fun t ht u hu htu =>
        Try.eq_renumber hs (ha t ht) (hb u hu) htu)
    | _ => exact absurd h (by simp [renumber])
  | snapshots xs =>
    cases b with
    | snapshots ys =>
      exact congrArg snapshots (eq_map_of_map_eq (Answer.snapshots.inj h) fun x hx y hy hxy =>
        Snapshot.eq_renumber hs (ha x.entry (List.mem_map.2 ⟨x, hx, rfl⟩))
          (hb y.entry (List.mem_map.2 ⟨y, hy, rfl⟩)) hxy)
    | _ => exact absurd h (by simp [renumber])
  | verdict v =>
    cases b with
    | verdict w =>
      have hvw : v.renumber blank = w.renumber blank := Answer.verdict.inj h
      have hentry := Try.eq_renumber hs (ha v.entry (by simp [tries])) (hb w.entry (by simp [tries]))
        (congrArg Verdict.entry hvw)
      have hcorrect : (v.renumber blank).correct = (w.renumber blank).correct :=
        congrArg Verdict.correct hvw
      cases v
      exact congrArg verdict (congrArg₂ Verdict.mk hcorrect hentry)
    | _ => exact absurd h (by simp [renumber])
  | document | permission | player | competition =>
    cases b <;> first | exact h | exact absurd h (by simp [renumber])

end PuzzleContest
