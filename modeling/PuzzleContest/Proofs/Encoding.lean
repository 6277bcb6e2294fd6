import PuzzleContest.Token
import PuzzleContest.Proofs.Numeral

/-!
# The encodings of a token

A token is a text that is cut at its last dot; its first part hides bytes in base 64, and these
bytes are a text in UTF-8 that is cut at its last colon.  Each of these steps can be told exactly:
what a cut gives, which bytes are a text, and that writing in base 64 is undone by reading.

Main results:

- `Text.cutLast?_eq_some_iff`: a cut at the last occurrence of a character.
- `Token.text?_eq_some_iff`: the bytes that are read as a text are those of the text.
- `Base64.decode_complete_encode`: what is written in base 64 is read back.
-/

namespace PuzzleContest

/-! ## Cutting a text -/

namespace Text

theorem not_mem_of_cutLast? {c : Char} {s : List Char} (h : cutLast? c s = none) : c ∉ s := by
  induction s with
  | nil => simp
  | cons d rest ih =>
    cases hrest : cutLast? c rest with
    | some cut => simp [cutLast?, hrest] at h
    | none =>
      have hne : d ≠ c := by
        intro hd
        simp [cutLast?, hrest, hd] at h
      simp only [List.mem_cons, not_or]
      exact ⟨Ne.symm hne, ih hrest⟩

theorem cutLast?_eq_some_iff {c : Char} {s before after : List Char} :
    cutLast? c s = some (before, after) ↔ s = before ++ c :: after ∧ c ∉ after := by
  constructor
  · intro h
    induction s generalizing before with
    | nil => simp [cutLast?] at h
    | cons d rest ih =>
      cases hrest : cutLast? c rest with
      | some cut =>
        simp only [cutLast?, hrest, Option.some.injEq, Prod.mk.injEq] at h
        obtain ⟨rfl, rfl⟩ := h
        obtain ⟨rfl, hnot⟩ := ih hrest
        exact ⟨rfl, hnot⟩
      | none =>
        have hnot := not_mem_of_cutLast? hrest
        simp only [cutLast?, hrest] at h
        split at h
        · rename_i hd
          simp only [Option.some.injEq, Prod.mk.injEq] at h
          obtain ⟨rfl, rfl⟩ := h
          exact ⟨by simp [hd], hnot⟩
        · simp at h
  · rintro ⟨rfl, hnot⟩
    exact cutLast?_append before hnot

end Text

/-! ## Base 64 -/

namespace Base64

theorem value?_symbol : ∀ n < 64, value? (symbol n) = some n := by decide

theorem symbol_ne_padding : ∀ n < 64, symbol n ≠ '=' := by decide

theorem symbol_toNat_lt : ∀ n < 64, (symbol n).toNat < 128 := by decide

section Groups

variable {m n p q : Nat} {rest : List Char}

/-- A symbol joins the group that it does not complete. -/
theorem decodeFrom_symbol {group : List Nat} (pads : Nat) (hn : n < 64) (hgroup : group.length ≠ 3) :
    decodeFrom group pads (symbol n :: rest) = decodeFrom (group ++ [n]) 0 rest := by
  rw [decodeFrom, if_neg (symbol_ne_padding n hn), value?_symbol n hn]
  dsimp only
  rw [if_neg hgroup]

/-- Four symbols are read as the bytes of their values. -/
theorem decode_four (hm : m < 64) (hn : n < 64) (hp : p < 64) (hq : q < 64) :
    decode (symbol m :: symbol n :: symbol p :: symbol q :: rest) =
      (decode rest).map (groupBytes [m, n, p, q] ++ ·) := by
  unfold decode
  rw [decodeFrom_symbol 0 hm (by decide), decodeFrom_symbol 0 hn (by simp),
    decodeFrom_symbol 0 hp (by simp), decodeFrom, if_neg (symbol_ne_padding q hq),
    value?_symbol q hq]
  rfl

theorem decode_three (hm : m < 64) (hn : n < 64) (hp : p < 64) :
    decode [symbol m, symbol n, symbol p, '='] = some (groupBytes [m, n, p]) := by
  unfold decode
  rw [decodeFrom_symbol 0 hm (by decide), decodeFrom_symbol 0 hn (by simp),
    decodeFrom_symbol 0 hp (by simp)]
  rfl

theorem decode_two (hm : m < 64) (hn : n < 64) :
    decode [symbol m, symbol n, '=', '='] = some (groupBytes [m, n]) := by
  unfold decode
  rw [decodeFrom_symbol 0 hm (by decide), decodeFrom_symbol 0 hn (by simp)]
  rfl

end Groups

/-- A whole group in front does not change how the rest is filled up. -/
theorem complete_four (a b c d : Char) (rest : List Char) :
    complete (a :: b :: c :: d :: rest) = a :: b :: c :: d :: complete rest := by
  have hmod : (a :: b :: c :: d :: rest).length % 4 = rest.length % 4 := by
    simp only [List.length_cons]
    omega
  unfold complete
  rw [hmod]
  split <;> rfl

theorem ofNat_eq {n : Nat} {b : UInt8} (h : n = b.toNat) : UInt8.ofNat n = b := by
  rw [h, UInt8.ofNat_toNat]

/-- What is written is read back once it is filled up. -/
theorem decode_complete_encode (bs : List UInt8) : decode (complete (encode bs)) = some bs := by
  induction bs using encode.induct with
  | case1 => rfl
  | case2 a =>
    have ha : a.toNat < 256 := a.toNat_lt
    have hfill : complete (encode [a]) =
        [symbol (a.toNat / 4), symbol (a.toNat % 4 * 16), '=', '='] := rfl
    rw [hfill, decode_two (by omega) (by omega)]
    simp only [groupBytes]
    rw [ofNat_eq (b := a) (by omega)]
  | case3 a b =>
    have ha : a.toNat < 256 := a.toNat_lt
    have hb : b.toNat < 256 := b.toNat_lt
    have hfill : complete (encode [a, b]) =
        [symbol (a.toNat / 4), symbol (a.toNat % 4 * 16 + b.toNat / 16),
          symbol (b.toNat % 16 * 4), '='] := rfl
    rw [hfill, decode_three (by omega) (by omega) (by omega)]
    simp only [groupBytes]
    rw [ofNat_eq (b := a) (by omega), ofNat_eq (b := b) (by omega)]
  | case4 a b c rest ih =>
    -- The first four symbols are a whole group, whatever the rest still needs to be filled up.
    have ha : a.toNat < 256 := a.toNat_lt
    have hb : b.toNat < 256 := b.toNat_lt
    have hc : c.toNat < 256 := c.toNat_lt
    rw [encode, complete_four, decode_four (by omega) (by omega) (by omega) (by omega), ih]
    simp only [groupBytes, Option.map_some]
    rw [ofNat_eq (b := a) (by omega), ofNat_eq (b := b) (by omega), ofNat_eq (b := c) (by omega)]
    rfl

theorem mem_encode {c : Char} {bs : List UInt8} (h : c ∈ encode bs) : ∃ n < 64, c = symbol n := by
  induction bs using encode.induct with
  | case1 => simp [encode] at h
  | case2 a =>
    have ha : a.toNat < 256 := a.toNat_lt
    simp only [encode, List.mem_cons, List.not_mem_nil, or_false] at h
    rcases h with h | h
    · exact ⟨_, by omega, h⟩
    · exact ⟨_, by omega, h⟩
  | case3 a b =>
    have ha : a.toNat < 256 := a.toNat_lt
    have hb : b.toNat < 256 := b.toNat_lt
    simp only [encode, List.mem_cons, List.not_mem_nil, or_false] at h
    rcases h with h | h | h
    · exact ⟨_, by omega, h⟩
    · exact ⟨_, by omega, h⟩
    · exact ⟨_, by omega, h⟩
  | case4 a b c rest ih =>
    have ha : a.toNat < 256 := a.toNat_lt
    have hb : b.toNat < 256 := b.toNat_lt
    have hc : c.toNat < 256 := c.toNat_lt
    simp only [encode, List.mem_cons] at h
    rcases h with h | h | h | h | h
    · exact ⟨_, by omega, h⟩
    · exact ⟨_, by omega, h⟩
    · exact ⟨_, by omega, h⟩
    · exact ⟨_, by omega, h⟩
    · exact ih h

end Base64

namespace Token

/-! ## Text and bytes -/

theorem toList_loop (b : ByteArray) (i : Nat) (r : List UInt8) :
    ByteArray.toList.loop b i r = r.reverse ++ b.data.toList.drop i := by
  fun_induction ByteArray.toList.loop b i r with
  | case1 i r h ih =>
    have hi : i < b.data.toList.length := by simpa using h
    rw [ih, List.drop_eq_getElem_cons hi]
    have hget : b.get! i = b.data.toList[i] := by
      rw [ByteArray.get!, getElem!_pos b.data i (by simpa using hi), Array.getElem_toList]
    simp [hget]
  | case2 i r h =>
    have hlen : b.data.toList.length ≤ i := by simpa using h
    rw [List.drop_eq_nil_of_le hlen, List.append_nil]

theorem toList_eq (b : ByteArray) : b.toList = b.data.toList := by
  rw [ByteArray.toList, toList_loop]
  simp

theorem bytes_eq (s : List Char) : bytes s = (String.ofList s).toByteArray.data.toList := by
  simp [bytes, toList_eq]

/-- Bytes are read as a text if and only if they are the bytes of that text. -/
theorem text?_eq_some_iff {bs : List UInt8} {s : List Char} : text? bs = some s ↔ bs = bytes s := by
  rw [bytes_eq]
  unfold text? String.fromUTF8?
  constructor
  · intro h
    split at h
    · rename_i hvalid
      simp only [Option.map_some, Option.some.injEq] at h
      subst h
      simp [String.fromUTF8]
    · simp at h
  · rintro rfl
    have hvalid : ByteArray.IsValidUTF8 ⟨(String.ofList s).toByteArray.data.toList.toArray⟩ := by
      simpa using (String.ofList s).isValidUTF8
    have hsame : String.fromUTF8 _ hvalid = String.ofList s := by
      simp [← String.toByteArray_inj, String.fromUTF8]
    rw [dif_pos hvalid, hsame, Option.map_some, String.toList_ofList]

end Token

end PuzzleContest
