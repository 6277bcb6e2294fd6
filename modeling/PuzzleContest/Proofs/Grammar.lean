import PuzzleContest.Proofs.Lexeme

/-!
# What JSON texts say

The grammar of values, lists and objects is stated without the reader: a text starts with a phrase and
leaves a rest.  The members of an object are kept in the order in which they are written, each with the
spelling of its name, before the last one of a name is chosen.  The reader finds exactly what the
grammar derives, given the same room for containers inside each other.

Main definitions:

- `Json.Phrase`: a value, or the parts of a list or an object.
- `Json.Derives`: a text starts with a phrase, in which so many containers lie inside each other.
- `Json.opened`: a container after its opening, as the reader goes about it.

Main results:

- `Json.Sound.of_fuel`: what the reader finds is derived.
- `Json.Derives.found`: what is derived is found, with fuel for the length of the text.
-/

namespace PuzzleContest.Json

/-! ## The grammar -/

/-- What a text can start with: a value, a whole object, or what is left of a list or an object. -/
inductive Phrase where
  | value (v : Json)
  | object (ms : List (Spelling × Json))
  | items (vs : List Json)
  | members (ms : List (Spelling × Json))

/-- Members as they are written, set one after another. -/
def collect (done : List (Spelling × Json)) (ms : List (Spelling × Json)) : List (Spelling × Json) :=
  ms.foldl (fun done m => setMember m.1 m.2 done) done

/-- A text starts with a phrase, of which at most `room` containers lie inside each other, and leaves a
rest. -/
inductive Derives : Nat → Phrase → List Char → List Char → Prop
  | text {room s rest x} (h : string ('"' :: s) = .ok (x, rest)) :
      Derives room (.value x.value) ('"' :: s) rest
  | word {room s rest v} (h : word? s = some (v, rest)) :
      Derives room (.value v) s rest
  | number {room s rest v} (h : number s = .ok (v, rest)) :
      Derives room (.value v) s rest
  | emptyList {room s rest} (h : skip s = ']' :: rest) :
      Derives (room + 1) (.value (.list [])) ('[' :: s) rest
  | list {room s rest vs} (h : Derives room (.items vs) (skip s) rest) :
      Derives (room + 1) (.value (.list vs)) ('[' :: s) rest
  | ofObject {room s rest ms} (h : Derives room (.object ms) s rest) :
      Derives room (.value (.object (collect [] ms))) s rest
  | emptyObject {room s rest} (h : skip s = '}' :: rest) :
      Derives (room + 1) (.object []) ('{' :: s) rest
  | object {room s rest ms} (h : Derives room (.members ms) (skip s) rest) :
      Derives (room + 1) (.object ms) ('{' :: s) rest
  | lastItem {room s after rest v} (h : Derives room (.value v) s after)
      (hend : skip after = ']' :: rest) : Derives room (.items [v]) s rest
  | moreItems {room s after more rest v vs} (h : Derives room (.value v) s after)
      (hcomma : skip after = ',' :: more) (hmore : Derives room (.items vs) (skip more) rest) :
      Derives room (.items (v :: vs)) s rest
  | lastMember {room s afterName colon after rest name v}
      (hname : string ('"' :: s) = .ok (name, afterName)) (hcolon : skip afterName = ':' :: colon)
      (h : Derives room (.value v) (skip colon) after) (hend : skip after = '}' :: rest) :
      Derives room (.members [(name, v)]) ('"' :: s) rest
  | moreMembers {room s afterName colon after more rest name v ms}
      (hname : string ('"' :: s) = .ok (name, afterName)) (hcolon : skip afterName = ':' :: colon)
      (h : Derives room (.value v) (skip colon) after) (hcomma : skip after = ',' :: more)
      (hmore : Derives room (.members ms) (skip more) rest) :
      Derives room (.members ((name, v) :: ms)) ('"' :: s) rest

variable {n room : Nat} {s rest : List Char}

theorem suffix_of_skip {c : Char} {t : List Char} (h : skip s = c :: t) : t <:+ s :=
  (List.suffix_cons c t).trans (h ▸ skip_suffix s)

/-- A phrase takes something off the text. -/
theorem Derives.advances {p : Phrase} (h : Derives room p s rest) : Advances s rest := by
  induction h with
  | text h => exact string_advances h
  | word h => exact word?_advances h
  | number h => exact number_advances h
  | emptyList h | emptyObject h => exact ⟨_, _, rfl, suffix_of_skip h⟩
  | list _ ih | object _ ih => exact ⟨_, _, rfl, ih.suffix.trans (skip_suffix _)⟩
  | ofObject _ ih => exact ih
  | lastItem _ hend ih => exact ih.trans (suffix_of_skip hend)
  | moreItems _ hcomma _ ih ihmore =>
    exact ih.trans ((ihmore.suffix.trans (skip_suffix _)).trans (suffix_of_skip hcomma))
  | lastMember hname hcolon _ hend ih =>
    refine (string_advances hname).trans (.trans ?_ (suffix_of_skip hcolon))
    exact (suffix_of_skip hend).trans (ih.suffix.trans (skip_suffix _))
  | moreMembers hname hcolon _ hcomma _ ih ihmore =>
    refine (string_advances hname).trans (.trans ?_ (suffix_of_skip hcolon))
    refine .trans ?_ (ih.suffix.trans (skip_suffix _))
    exact (ihmore.suffix.trans (skip_suffix _)).trans (suffix_of_skip hcomma)

/-! ## One step of the reader -/

theorem value_quote (n room : Nat) (s : List Char) : value (n + 1) room ('"' :: s) =
    (string ('"' :: s)).map fun (x, after) => (x.value, after) := rfl

/-- A container after its opening: it is closed at once, or its parts follow with less room. -/
def opened (container : Container) (close : Char) (empty : Json)
    (parts : Nat → List Char → Reading Json) (room : Nat) (s : List Char) : Reading Json :=
  if room = 0 then tooDeep container
  else if (skip s).head? = some close then .ok (empty, (skip s).drop 1)
  else parts (room - 1) (skip s)

section

variable {container : Container} {close : Char} {empty v : Json}
  {parts : Nat → List Char → Reading Json}

theorem opened_of_close (h : skip s = close :: rest) :
    opened container close empty parts (room + 1) s = .ok (empty, rest) := by
  simp [opened, h]

theorem opened_of_parts {c : Char} {t : List Char} (h : skip s = c :: t) (hc : c ≠ close) :
    opened container close empty parts (room + 1) s = parts room (skip s) := by
  simp [opened, h, hc]

/-- A container that is found takes some of the room, and is empty or has its parts found. -/
theorem opened_eq_ok (h : opened container close empty parts room s = .ok (v, rest)) :
    ∃ less, room = less + 1 ∧
      ((skip s = close :: rest ∧ v = empty) ∨ parts less (skip s) = .ok (v, rest)) := by
  unfold opened at h
  cases room with
  | zero => simp [tooDeep] at h
  | succ less =>
    rw [if_neg (Nat.succ_ne_zero less)] at h
    refine ⟨less, rfl, ?_⟩
    split at h
    · rename_i hclose
      obtain ⟨t, hskip⟩ := List.head?_eq_some_iff.1 hclose
      simp only [hskip, List.drop_succ_cons, List.drop_zero, Except.ok.injEq, Prod.mk.injEq] at h
      exact .inl ⟨h.2 ▸ hskip, h.1.symm⟩
    · exact .inr h

end

theorem value_brace (n room : Nat) (s : List Char) : value (n + 1) room ('{' :: s) =
    opened .object '}' (.object []) (fun room => members n room []) room s := by
  simp only [value, opened]
  split
  · rfl
  · split
    · rename_i after hskip
      simp [hskip]
    · rename_i hskip
      rw [if_neg]
      intro hclose
      obtain ⟨t, ht⟩ := List.head?_eq_some_iff.1 hclose
      exact hskip t ht

theorem value_bracket (n room : Nat) (s : List Char) : value (n + 1) room ('[' :: s) =
    opened .list ']' (.list []) (fun room => items n room []) room s := by
  simp only [value, opened]
  split
  · rfl
  · split
    · rename_i after hskip
      simp [hskip]
    · rename_i hskip
      rw [if_neg]
      intro hclose
      obtain ⟨t, ht⟩ := List.head?_eq_some_iff.1 hclose
      exact hskip t ht

/-- A text starts neither with a string nor with an object nor with a list. -/
def IsPlain (s : List Char) : Prop := ∀ c t, s = c :: t → c ≠ '"' ∧ c ≠ '{' ∧ c ≠ '['

theorem isPlain_cons {c : Char} (h : c ∉ marks) (t : List Char) : IsPlain (c :: t) := by
  rintro d u heq
  rw [List.cons.injEq] at heq
  rw [← heq.1]
  simp only [marks, List.mem_cons, not_or] at h
  exact ⟨h.1, h.2.1, h.2.2.1⟩

theorem start_cases (s : List Char) :
    (∃ t, s = '"' :: t) ∨ (∃ t, s = '{' :: t) ∨ (∃ t, s = '[' :: t) ∨ IsPlain s := by
  by_cases h : IsPlain s
  · exact .inr (.inr (.inr h))
  · unfold IsPlain at h
    push Not at h
    obtain ⟨c, t, rfl, hc⟩ := h
    by_cases hquote : c = '"'
    · exact .inl ⟨t, hquote ▸ rfl⟩
    · by_cases hbrace : c = '{'
      · exact .inr (.inl ⟨t, hbrace ▸ rfl⟩)
      · exact .inr (.inr (.inl ⟨t, hc hquote hbrace ▸ rfl⟩))

theorem value_plain (n room : Nat) (h : IsPlain s) :
    value (n + 1) room s = match word? s with
      | some found => .ok found
      | none => number s := by
  have hquote : ∀ t, s = '"' :: t → False := fun t ht => (h _ t ht).1 rfl
  have hbrace : ∀ t, s = '{' :: t → False := fun t ht => (h _ t ht).2.1 rfl
  have hbracket : ∀ t, s = '[' :: t → False := fun t ht => (h _ t ht).2.2 rfl
  cases hword : word? s with
  | some found => simp only [value, hword]
  | none => simp only [value, hword]

theorem items_succ (n room : Nat) (done : List Json) (s : List Char) : items (n + 1) room done s =
    match value n room s with
    | .error e => .error e
    | .ok (v, rest) =>
      match skip rest with
      | ']' :: after => .ok (.list (done ++ [v]), after)
      | ',' :: more => items n room (done ++ [v]) (skip more)
      | other => failAt other := rfl

theorem members_quote (n room : Nat) (done : List (Spelling × Json)) (s : List Char) :
    members (n + 1) room done ('"' :: s) =
      match string ('"' :: s) with
      | .error e => .error e
      | .ok (name, afterName) =>
        match skip afterName with
        | ':' :: colon =>
          match value n room (skip colon) with
          | .error e => .error e
          | .ok (v, afterValue) =>
            match skip afterValue with
            | '}' :: after => .ok (.object (setMember name v done), after)
            | ',' :: more =>
              members n room (setMember name v done) (skip more)
            | other => failAt other
        | other => failAt other := rfl

theorem members_plain (n room : Nat) (done : List (Spelling × Json))
    (h : ∀ t, s ≠ '"' :: t) : members (n + 1) room done s = failAt s := by
  rw [members]
  exact fun t ht => h t ht

/-! ## What is found is derived -/

/-- With so much fuel the reader finds only what is derived. -/
structure Sound (n : Nat) : Prop where
  value {room : Nat} {s rest : List Char} {v : Json} :
    Json.value n room s = .ok (v, rest) → Derives room (.value v) s rest
  items {room : Nat} {done : List Json} {s rest : List Char} {v : Json} :
    Json.items n room done s = .ok (v, rest) →
      ∃ vs, v = .list (done ++ vs) ∧ Derives room (.items vs) s rest
  members {room : Nat} {done : List (Spelling × Json)} {s rest : List Char} {v : Json} :
    Json.members n room done s = .ok (v, rest) →
      ∃ ms, v = .object (collect done ms) ∧ Derives room (.members ms) s rest

theorem Sound.value_succ (h : Sound n) {v : Json} (hread : Json.value (n + 1) room s = .ok (v, rest)) :
    Derives room (.value v) s rest := by
  rcases start_cases s with ⟨t, rfl⟩ | ⟨t, rfl⟩ | ⟨t, rfl⟩ | hplain
  · rw [value_quote] at hread
    cases hstring : string ('"' :: t) with
    | error e => simp [hstring, Except.map] at hread
    | ok found =>
      obtain ⟨x, after⟩ := found
      simp only [hstring, Except.map, Except.ok.injEq, Prod.mk.injEq] at hread
      obtain ⟨rfl, rfl⟩ := hread
      exact .text hstring
  · rw [value_brace] at hread
    obtain ⟨less, rfl, ⟨hskip, rfl⟩ | hparts⟩ := opened_eq_ok hread
    · exact .ofObject (.emptyObject hskip)
    · obtain ⟨ms, rfl, hms⟩ := h.members hparts
      exact .ofObject (.object hms)
  · rw [value_bracket] at hread
    obtain ⟨less, rfl, ⟨hskip, rfl⟩ | hparts⟩ := opened_eq_ok hread
    · exact .emptyList hskip
    · obtain ⟨vs, rfl, hvs⟩ := h.items hparts
      exact .list hvs
  · rw [value_plain n room hplain] at hread
    split at hread
    · rename_i found hword
      rw [Except.ok.injEq] at hread
      exact .word (hword.trans (congrArg some hread))
    · exact .number hread

theorem Sound.items_succ (h : Sound n) {done : List Json} {v : Json}
    (hread : Json.items (n + 1) room done s = .ok (v, rest)) :
    ∃ vs, v = .list (done ++ vs) ∧ Derives room (.items vs) s rest := by
  rw [Json.items_succ] at hread
  cases hvalue : Json.value n room s with
  | error e => simp [hvalue] at hread
  | ok found =>
    obtain ⟨x, after⟩ := found
    simp only [hvalue] at hread
    split at hread
    · rename_i last hend
      simp only [Except.ok.injEq, Prod.mk.injEq] at hread
      obtain ⟨rfl, rfl⟩ := hread
      exact ⟨[x], rfl, .lastItem (h.value hvalue) hend⟩
    · rename_i more hcomma
      obtain ⟨vs, rfl, hvs⟩ := h.items hread
      exact ⟨x :: vs, by simp, .moreItems (h.value hvalue) hcomma hvs⟩
    · simp [failAt] at hread

theorem Sound.members_succ (h : Sound n) {done : List (Spelling × Json)} {v : Json}
    (hread : Json.members (n + 1) room done s = .ok (v, rest)) :
    ∃ ms, v = .object (collect done ms) ∧ Derives room (.members ms) s rest := by
  by_cases hquote : ∃ t, s = '"' :: t
  · obtain ⟨t, rfl⟩ := hquote
    rw [members_quote] at hread
    split at hread
    · simp at hread
    · rename_i name afterName hname
      split at hread
      · rename_i colon hcolon
        split at hread
        · simp at hread
        · rename_i x after hvalue
          split at hread
          · rename_i last hend
            simp only [Except.ok.injEq, Prod.mk.injEq] at hread
            obtain ⟨rfl, rfl⟩ := hread
            exact ⟨[(name, x)], rfl, .lastMember hname hcolon (h.value hvalue) hend⟩
          · rename_i more hcomma
            obtain ⟨ms, rfl, hms⟩ := h.members hread
            exact ⟨(name, x) :: ms, rfl, .moreMembers hname hcolon (h.value hvalue) hcomma hms⟩
          · simp [failAt] at hread
      · simp [failAt] at hread
  · rw [members_plain n room done fun t ht => hquote ⟨t, ht⟩] at hread
    simp [failAt] at hread

/-- Whatever fuel there is, the reader finds only what is derived. -/
theorem Sound.of_fuel (n : Nat) : Sound n := by
  induction n with
  | zero => constructor <;> intros <;> simp_all [Json.value, Json.items, Json.members, failAt]
  | succ n ih => exact ⟨ih.value_succ, ih.items_succ, ih.members_succ⟩

/-! ## What is derived is found -/

/-- No phrase starts with the end of a list or an object. -/
theorem Derives.head {p : Phrase} (h : Derives room p s rest) :
    ∃ c t, s = c :: t ∧ c ≠ ']' ∧ c ≠ '}' := by
  have hmarks : ∀ c, c ∉ marks → c ≠ ']' ∧ c ≠ '}' := by
    intro c hc
    simp only [marks, List.mem_cons, not_or] at hc
    exact ⟨hc.2.2.2.2.1, hc.2.2.2.1⟩
  induction h with
  | text | emptyList | list | emptyObject | object | lastMember | moreMembers =>
    exact ⟨_, _, rfl, by decide, by decide⟩
  | word h =>
    obtain ⟨⟨c, t, rfl, -, hc⟩, -⟩ := word?_eq_some h
    exact ⟨c, t, rfl, hmarks c hc⟩
  | number h =>
    obtain ⟨⟨c, t, rfl, hc⟩, -⟩ := number_eq_ok h
    exact ⟨c, t, rfl, hmarks c hc⟩
  | ofObject _ ih | lastItem _ _ ih | moreItems _ _ _ ih => exact ih

/-- The reader finds a phrase at the front of a text, if it has fuel for the length of the text. -/
def Phrase.Found (room : Nat) (s rest : List Char) : Phrase → Prop
  | value v => ∀ n, 2 * s.length < n → Json.value n room s = .ok (v, rest)
  | object ms => ∀ n, 2 * s.length < n →
      Json.value n room s = .ok (.object (collect [] ms), rest)
  | items vs => ∀ n done, 2 * s.length + 1 < n →
      Json.items n room done s = .ok (.list (done ++ vs), rest)
  | members ms => ∀ n done, 2 * s.length + 1 < n →
      Json.members n room done s = .ok (.object (collect done ms), rest)

theorem exists_succ {m n : Nat} (h : m < n) : ∃ k, n = k + 1 ∧ m ≤ k :=
  ⟨n - 1, by omega, by omega⟩

theorem skip_length_le (s : List Char) : (skip s).length ≤ s.length := (skip_suffix s).length_le

/-- The reader finds what is derived. -/
theorem Derives.found {p : Phrase} (h : Derives room p s rest) : p.Found room s rest := by
  induction h with
  | text h =>
    intro n hn
    obtain ⟨k, rfl, -⟩ := exists_succ hn
    rw [value_quote, h]
    rfl
  | word h =>
    intro n hn
    obtain ⟨k, rfl, -⟩ := exists_succ hn
    obtain ⟨⟨c, t, rfl, -, hc⟩, -⟩ := word?_eq_some h
    rw [value_plain k _ (isPlain_cons hc t), h]
  | @number room s rest v h =>
    intro n hn
    obtain ⟨k, rfl, -⟩ := exists_succ hn
    obtain ⟨⟨c, t, rfl, hc⟩, -⟩ := number_eq_ok h
    rw [value_plain k _ (isPlain_cons hc t)]
    split
    · rename_i found hword
      obtain ⟨w, after⟩ := found
      exact absurd h ((word?_eq_some hword).2.1 _)
    · exact h
  | emptyList h =>
    intro n hn
    obtain ⟨k, rfl, -⟩ := exists_succ hn
    rw [value_bracket, opened_of_close h]
  | @list room s rest vs h ih =>
    intro n hn
    obtain ⟨k, rfl, hk⟩ := exists_succ hn
    obtain ⟨c, t, hhead, hc, -⟩ := h.head
    have hlength := skip_length_le s
    rw [List.length_cons] at hk
    rw [value_bracket, opened_of_parts hhead hc]
    exact ih k [] (by omega)
  | ofObject _ ih => exact ih
  | emptyObject h =>
    intro n hn
    obtain ⟨k, rfl, -⟩ := exists_succ hn
    rw [value_brace, opened_of_close h]
    rfl
  | @object room s rest ms h ih =>
    intro n hn
    obtain ⟨k, rfl, hk⟩ := exists_succ hn
    obtain ⟨c, t, hhead, -, hc⟩ := h.head
    have hlength := skip_length_le s
    rw [List.length_cons] at hk
    rw [value_brace, opened_of_parts hhead hc]
    exact ih k [] (by omega)
  | lastItem _ hend ih =>
    intro n done hn
    obtain ⟨k, rfl, hk⟩ := exists_succ hn
    rw [items_succ, ih k (by omega)]
    simp only [hend]
  | @moreItems room s after more rest v vs h hcomma _ ih ihmore =>
    intro n done hn
    obtain ⟨k, rfl, hk⟩ := exists_succ hn
    have hlength := h.advances.length_lt
    have hafter := (suffix_of_skip hcomma).length_le
    have hskip := skip_length_le more
    rw [items_succ, ih k (by omega)]
    simp only [hcomma]
    rw [ihmore k (done ++ [v]) (by omega), List.append_assoc]
    rfl
  | @lastMember room s afterName colon after rest name v hname hcolon h hend ih =>
    intro n done hn
    obtain ⟨k, rfl, hk⟩ := exists_succ hn
    have hlength := (string_advances hname).length_lt
    have hafter := (suffix_of_skip hcolon).length_le
    have hskip := skip_length_le colon
    rw [members_quote]
    simp only [hname, hcolon, ih k (by omega), hend]
    rfl
  | @moreMembers room s afterName colon after more rest name v ms hname hcolon h hcomma _ ih ihmore =>
    intro n done hn
    obtain ⟨k, rfl, hk⟩ := exists_succ hn
    have hlength := (string_advances hname).length_lt
    have hafter := (suffix_of_skip hcolon).length_le
    have hskip := skip_length_le colon
    have hvalue := h.advances.length_lt
    have hmore := (suffix_of_skip hcomma).length_le
    have hskip' := skip_length_le more
    rw [members_quote]
    simp only [hname, hcolon, ih k (by omega), hcomma]
    exact ihmore k _ (by omega)

end PuzzleContest.Json
