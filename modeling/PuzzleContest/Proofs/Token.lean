import PuzzleContest.Proofs.Encoding
import PuzzleContest.Proofs.Score

/-!
# Whom a token speaks for

A text is accepted for a user only if its signature is the keyed digest of the payload that it hides
and if this payload names the user.  Its first part is read leniently, so that many texts hide one
payload; but what is signed is the payload and not the text.  Unless the digests of two payloads
collide, an altered text under an old signature therefore speaks for the user of this signature or
for nobody.

Main definitions:

- `Binary64.IsDouble`: the values that a double can have.
- `Token.payload?`: the payload that a text hides.
- `Token.Credential`: what makes a text speak for a user at a clock reading.

Main results:

- `Binary64.ofInt?_truncate`: the integer part of a double has a double.
- `Token.verify_eq_ok_some_iff`: a text speaks for a user if and only if it has what this takes.
- `Token.payload?_createAt`: a token hides the payload that it was made of.
- `Token.verify_of_same_signature`: whom a text under an old signature can speak for.
- `Token.speaks_for_one_user`: both for all texts, clock readings and settings.
-/

namespace PuzzleContest

/-! ## Times that doubles can hold -/

namespace Binary64

/-- The values that a double can have: the finite ones are below the limit and are not changed by
rounding. -/
def IsDouble : Binary64 → Prop
  | .finite _ units => units < limit ∧ roundUnits units 1 = units
  | _ => True

theorem twoTo_mul_one (m : Nat) : twoTo m * one = twoTo (m + 1074) := (twoTo_add m 1074).symm

theorem one_pos : 0 < one := twoTo_pos 1074

theorem ofInt?_of_lt {n : Int} (h : roundUnits (n.natAbs * one) 1 < limit) :
    ofInt? n = some (.finite (n < 0) (roundUnits (n.natAbs * one) 1)) := by
  rw [ofInt?, ofInt_apply, ofUnits_of_lt _ h]
  rfl

theorem natAbs_signedUnits (negative : Bool) (n : Nat) : (signedUnits negative n).natAbs = n := by
  cases negative <;> simp [signedUnits]

theorem dvd_of_roundUnits_eq {u : Nat} (h : roundUnits u 1 = u) : twoTo (spareBits u) ∣ u := by
  simp only [roundUnits, Nat.div_one, Nat.one_mul] at h
  exact ⟨_, (Nat.mul_comm _ _).trans h |>.symm⟩

theorem twoTo_dvd {m n : Nat} (h : m ≤ n) : twoTo m ∣ twoTo n := Nat.pow_dvd_pow 2 h

/-- A double with a fraction is far from the limit. -/
theorem div_one_lt {u : Nat} (h : spareBits u < 1074) : u / one < twoTo 53 := by
  rw [Nat.div_lt_iff_lt_mul one_pos]
  have hlog : u < twoTo (u.log2 + 1) := Nat.lt_log2_self
  have hbits : u.log2 + 1 ≤ 53 + 1074 := by
    unfold spareBits at h
    omega
  calc u < twoTo (u.log2 + 1) := hlog
    _ ≤ twoTo (53 + 1074) := twoTo_le hbits
    _ = twoTo 53 * one := (twoTo_mul_one 53).symm

/-- The integer part of a double has a double. -/
theorem ofInt?_truncate {x : Binary64} (hx : x.IsDouble) {n : Int} (h : x.truncate? = some n) :
    (ofInt? n).isSome = true := by
  cases x with
  | infinite negative => simp [truncate?] at h
  | nan => simp [truncate?] at h
  | finite negative units =>
    simp only [truncate?, Option.some.injEq] at h
    subst h
    by_cases hbits : spareBits units < 1074
    · apply ofInt?_isSome (show 1024 + 1074 = 2098 from rfl)
      rw [natAbs_signedUnits]
      have hlt := div_one_lt hbits
      have hrange : twoTo 54 ≤ twoTo 1024 := twoTo_le (by omega)
      have hdouble : twoTo 54 = 2 * twoTo 53 := by decide
      omega
    · have hone : one ∣ units :=
        Nat.dvd_trans (twoTo_dvd (Nat.not_lt.1 hbits)) (dvd_of_roundUnits_eq hx.2)
      have hwhole : units / one * one = units := Nat.div_mul_cancel hone
      rw [ofInt?_of_lt]
      · rfl
      · rw [natAbs_signedUnits, hwhole, hx.2]
        exact hx.1

theorem natAbs_truncate_lt {x : Binary64} (hx : x.IsDouble) {n : Int} (h : x.truncate? = some n) :
    n.natAbs < twoTo 1024 := by
  cases x with
  | infinite negative => simp [truncate?] at h
  | nan => simp [truncate?] at h
  | finite negative units =>
    simp only [truncate?, Option.some.injEq] at h
    subst h
    rw [natAbs_signedUnits, Nat.div_lt_iff_lt_mul one_pos]
    rw [twoTo_mul_one]
    exact hx.1

end Binary64

namespace Token

/-! ## Signatures -/

theorem hexDigit_bounds : ∀ n < 16, Sha256.hexDigit n ≠ '.' ∧ (Sha256.hexDigit n).toNat < 128 := by
  decide

theorem mem_signature {secret : String} {p : List UInt8} {c : Char} (h : c ∈ signature secret p) :
    c ≠ '.' ∧ c.toNat < 128 := by
  obtain ⟨b, -, hc⟩ := List.mem_flatMap.1 h
  have hb : b.toNat < 256 := b.toNat_lt
  simp only [List.mem_cons, List.not_mem_nil, or_false] at hc
  rcases hc with rfl | rfl
  · exact hexDigit_bounds _ (by omega)
  · exact hexDigit_bounds _ (by omega)

theorem dot_not_mem_signature (secret : String) (p : List UInt8) : '.' ∉ signature secret p :=
  fun h => (mem_signature h).1 rfl

theorem isAscii_signature (secret : String) (p : List UInt8) : isAscii (signature secret p) = true := by
  simp only [isAscii, List.all_eq_true, decide_eq_true_eq]
  exact fun c hc => (mem_signature hc).2

/-! ## Reading a token -/

variable {policy : Policy} {now : Binary64} {user : String} {time : Int}

/-- The encoded part and the signature of a text. -/
def parts? (token : String) : Option (List Char × List Char) := Text.cutLast? '.' token.toList

/-- The payload hidden in a text. -/
def payload? (token : String) : Option (List UInt8) :=
  (parts? token).bind fun x => decodePayload? x.1

theorem readPayload?_eq_some_iff {p : List UInt8} :
    readPayload? p = some (user, time) ↔
      user ≠ "" ∧ ∃ ts, p = bytes (user.toList ++ ':' :: ts) ∧ ':' ∉ ts ∧
        Text.readInteger? ts = some time := by
  unfold readPayload?
  simp only [Option.bind_eq_bind, Option.bind_eq_some_iff, text?_eq_some_iff, Prod.exists,
    Text.cutLast?_eq_some_iff]
  constructor
  · rintro ⟨s, rfl, name, ts, ⟨rfl, hnot⟩, h⟩
    split at h
    · simp at h
    · rename_i hempty
      simp only [Option.bind_eq_some_iff, Option.pure_def, Option.some.injEq, Prod.mk.injEq] at h
      obtain ⟨n, hn, rfl, rfl⟩ := h
      refine ⟨?_, ts, by simp, hnot, hn⟩
      simpa [← String.toList_inj] using hempty
  · rintro ⟨hne, ts, rfl, hnot, hts⟩
    refine ⟨_, rfl, _, ts, ⟨rfl, hnot⟩, ?_⟩
    have hempty : user.toList ≠ [] := by simpa using hne
    simp [hempty, hts]

theorem isExpired_eq_ok_iff {maxAge : Int} {expired : Bool} :
    isExpired maxAge now time = .ok expired ↔
      ∃ made, Binary64.ofInt? time = some made ∧ Binary64.intLt maxAge (now.sub made).abs = expired := by
  unfold isExpired
  cases Binary64.ofInt? time with
  | none => simp
  | some made => simp

theorem except_bind_eq_ok_iff {ε α β : Type} {x : Except ε α} {f : α → Except ε β} {b : β} :
    (x >>= f) = .ok b ↔ ∃ a, x = .ok a ∧ f a = .ok b := by
  cases x <;> simp [bind, Except.bind]

theorem verifyParts_eq_ok_some_iff {encoded signed : List Char} :
    verifyParts policy now encoded signed = .ok (some user) ↔
      ∃ p time made, decodePayload? encoded = some p ∧ signed = signature policy.secret p ∧
        readPayload? p = some (user, time) ∧ Binary64.ofInt? time = some made ∧
        Binary64.intLt policy.maxAge (now.sub made).abs = false := by
  unfold verifyParts
  cases hp : decodePayload? encoded with
  | none => simp
  | some p =>
    by_cases hsigned : signature policy.secret p = signed
    · subst hsigned
      cases hread : readPayload? p with
      | none => simp [isAscii_signature, hread]
      | some named =>
        obtain ⟨name, t⟩ := named
        simp only [isAscii_signature, Bool.not_true, Bool.false_eq_true, if_false, ne_eq,
          not_true_eq_false, hread, except_bind_eq_ok_iff, isExpired_eq_ok_iff]
        constructor
        · rintro ⟨expired, ⟨made, hmade, hage⟩, h⟩
          cases expired with
          | true => simp [pure, Except.pure] at h
          | false =>
            have hname : name = user := by simpa [pure, Except.pure] using h
            exact ⟨p, t, made, rfl, rfl, by rw [hread, hname], hmade, hage⟩
        · rintro ⟨_, time, made, ⟨rfl⟩, -, hread', hmade, hage⟩
          rw [hread, Option.some.injEq, Prod.mk.injEq] at hread'
          obtain ⟨rfl, rfl⟩ := hread'
          exact ⟨false, ⟨made, hmade, hage⟩, rfl⟩
    · have hne : ¬signed = signature policy.secret p := fun h => hsigned h.symm
      by_cases hascii : isAscii signed = true
      · simp [hascii, hsigned, hne]
      · simp [hascii, hne]

/-! ## Who a token speaks for -/

/-- What makes a text speak for a user at a clock reading. -/
structure Credential (policy : Policy) (now : Binary64) (token user : String) where
  encoded : List Char
  signed : List Char
  payload : List UInt8
  stamp : List Char
  time : Int
  made : Binary64
  /-- The signature is what follows the last dot. -/
  token_eq : token.toList = encoded ++ '.' :: signed
  signed_last : '.' ∉ signed
  /-- What precedes it hides the payload, when it is read leniently. -/
  decoded : decodePayload? encoded = some payload
  /-- The payload is the user, a colon and a time, in UTF-8. -/
  payload_eq : payload = bytes (user.toList ++ ':' :: stamp)
  stamp_last : ':' ∉ stamp
  user_ne : user ≠ ""
  stamp_reads : Text.readInteger? stamp = some time
  /-- The signature is the keyed digest of this payload in lower-case hexadecimal. -/
  signed_eq : signed = Sha256.hex (Sha256.keyedDigest (bytes policy.secret.toList) payload)
  /-- The clock is not farther from the time than the greatest age, as doubles. -/
  made_eq : Binary64.ofInt? time = some made
  young : Binary64.intLt policy.maxAge (now.sub made).abs = false

theorem verify_of_parts? {token : String} {encoded signed : List Char}
    (h : parts? token = some (encoded, signed)) :
    verify policy now (some token) = verifyParts policy now encoded signed := by
  have hcut : Text.cutLast? '.' token.toList = some (encoded, signed) := h
  simp only [verify, Option.bind_some, hcut]

theorem verify_of_parts?_none {token : String} (h : parts? token = none) :
    verify policy now (some token) = .ok none := by
  have hcut : Text.cutLast? '.' token.toList = none := h
  simp only [verify, Option.bind_some, hcut]

theorem parts?_eq_some_iff {token : String} {encoded signed : List Char} :
    parts? token = some (encoded, signed) ↔ token.toList = encoded ++ '.' :: signed ∧ '.' ∉ signed :=
  Text.cutLast?_eq_some_iff

/-- A text speaks for a user if and only if it has what it takes. -/
theorem verify_eq_ok_some_iff {token : String} :
    verify policy now (some token) = .ok (some user) ↔
      Nonempty (Credential policy now token user) := by
  constructor
  · intro h
    cases hparts : parts? token with
    | none => simp [verify_of_parts?_none hparts] at h
    | some parts =>
      obtain ⟨encoded, signed⟩ := parts
      rw [verify_of_parts? hparts, verifyParts_eq_ok_some_iff] at h
      obtain ⟨p, time, made, hp, hsigned, hread, hmade, hage⟩ := h
      obtain ⟨hne, stamp, hpayload, hlast, hstamp⟩ := readPayload?_eq_some_iff.1 hread
      obtain ⟨htoken, hdot⟩ := parts?_eq_some_iff.1 hparts
      exact ⟨⟨encoded, signed, p, stamp, time, made, htoken, hdot, hp, hpayload, hlast, hne, hstamp,
        hsigned, hmade, hage⟩⟩
  · rintro ⟨c⟩
    have hparts := parts?_eq_some_iff.2 ⟨c.token_eq, c.signed_last⟩
    have hread := readPayload?_eq_some_iff.2
      ⟨c.user_ne, c.stamp, c.payload_eq, c.stamp_last, c.stamp_reads⟩
    rw [verify_of_parts? hparts, verifyParts_eq_ok_some_iff]
    exact ⟨c.payload, c.time, c.made, c.decoded, c.signed_eq, hread, c.made_eq, c.young⟩

/-! ## Altered tokens -/

theorem colon_not_mem_integerText (n : Int) : ':' ∉ Text.integerText n := by
  intro h
  rcases Text.mem_integerText h with hsign | hdigit
  · exact absurd hsign (by decide)
  · exact absurd hdigit (by decide)

theorem twoTo_le_ten_pow {m n : Nat} (h : m ≤ n) : Binary64.twoTo m ≤ 10 ^ n := by
  calc Binary64.twoTo m ≤ Binary64.twoTo n := Binary64.twoTo_le h
    _ ≤ 10 ^ n := Nat.pow_le_pow_left (by omega) n

/-- The payload made for a user at a clock reading is read back. -/
theorem readPayload?_payload (huser : user ≠ "") (htime : time.natAbs < Binary64.twoTo 1024) :
    readPayload? (payload user time) = some (user, time) := by
  have hdigits : time.natAbs < 10 ^ Text.digitLimit :=
    Nat.lt_of_lt_of_le htime (twoTo_le_ten_pow (by decide))
  exact readPayload?_eq_some_iff.2 ⟨huser, _, rfl, colon_not_mem_integerText time,
    Text.readInteger?_integerText hdigits⟩

theorem parts?_ofList (encoded : List Char) (secret : String) (p : List UInt8) :
    parts? (String.ofList (encoded ++ '.' :: signature secret p)) =
      some (encoded, signature secret p) := by
  rw [parts?_eq_some_iff]
  exact ⟨String.toList_ofList, dot_not_mem_signature _ _⟩

theorem parts?_createAt (secret user : String) (time : Int) :
    parts? (createAt secret user time) =
      some (Base64.encode (payload user time), signature secret (payload user time)) :=
  parts?_ofList _ _ _

/-- The token that is made for a user hides the payload that names the user. -/
theorem payload?_createAt (secret user : String) (time : Int) :
    payload? (createAt secret user time) = some (payload user time) := by
  have hascii : isAscii (Base64.encode (payload user time)) = true := by
    simp only [isAscii, List.all_eq_true, decide_eq_true_eq]
    intro c hc
    obtain ⟨n, hn, rfl⟩ := Base64.mem_encode hc
    exact Base64.symbol_toNat_lt n hn
  rw [payload?, parts?_createAt, Option.bind_some, decodePayload?, if_pos hascii,
    Base64.decode_complete_encode]

/-- The signed payload of a user is accepted for this user or too old; it is never a fault. -/
theorem verifyParts_payload {made : Binary64} (huser : user ≠ "") (hmade : made.IsDouble)
    (htime : made.truncate? = some time) {encoded : List Char}
    (hencoded : decodePayload? encoded = some (payload user time)) :
    verifyParts policy now encoded (signature policy.secret (payload user time)) = .ok none ∨
      verifyParts policy now encoded (signature policy.secret (payload user time)) =
        .ok (some user) := by
  have hread := readPayload?_payload huser (Binary64.natAbs_truncate_lt hmade htime)
  obtain ⟨d, hd⟩ := Option.isSome_iff_exists.1 (Binary64.ofInt?_truncate hmade htime)
  have hexpired : isExpired policy.maxAge now time =
      .ok (Binary64.intLt policy.maxAge (now.sub d).abs) := isExpired_eq_ok_iff.2 ⟨d, hd, rfl⟩
  unfold verifyParts
  simp only [hencoded, isAscii_signature, Bool.not_true, Bool.false_eq_true, if_false, ne_eq,
    not_true_eq_false, hread, hexpired]
  cases Binary64.intLt policy.maxAge (now.sub d).abs with
  | true => exact .inl rfl
  | false => exact .inr rfl

/--
A text under the signature of a token speaks for the user of the token or for nobody, if the digests
of the two payloads do not collide.
-/
theorem verify_of_same_signature {made : Binary64} {original token : String} (huser : user ≠ "")
    (hmade : made.IsDouble) (horiginal : create? policy.secret user made = some original)
    (hsame : (parts? token).map Prod.snd = (parts? original).map Prod.snd)
    (hapart : ∀ p q, payload? token = some p → payload? original = some q →
      signature policy.secret p = signature policy.secret q → p = q) :
    verify policy now (some token) = .ok none ∨ verify policy now (some token) = .ok (some user) := by
  obtain ⟨time, htime, rfl⟩ := Option.map_eq_some_iff.1 horiginal
  rw [parts?_createAt, Option.map_some, Option.map_eq_some_iff] at hsame
  obtain ⟨⟨encoded, signed⟩, hparts, hsigned⟩ := hsame
  obtain rfl : signed = signature policy.secret (payload user time) := hsigned
  rw [verify_of_parts? hparts]
  cases hp : decodePayload? encoded with
  | none => exact .inl (by simp [verifyParts, hp])
  | some p =>
    have hpayload : payload? token = some p := by rw [payload?, hparts, Option.bind_some, hp]
    by_cases hdigest : signature policy.secret p = signature policy.secret (payload user time)
    · have heq := hapart p _ hpayload (payload?_createAt _ _ _) hdigest
      exact verifyParts_payload huser hmade htime (hp.trans (congrArg some heq))
    · exact .inl (by simp [verifyParts, hp, isAscii_signature, hdigest])

/--
No text speaks for another user.  A text is accepted for a user exactly if it is a credential of this
user: it hides a payload that names the user and a time that is near enough, under the signature of
this payload.  And a text under the signature of a token, however the part before the signature was
altered, is accepted for the user of the token or for nobody, whatever the clock and the greatest age,
if the signatures of the payloads that the two hide do not collide.
-/
theorem speaks_for_one_user :
    (∀ policy now token user, verify policy now (some token) = .ok (some user) ↔
      Nonempty (Credential policy now token user)) ∧
    ∀ policy user made original token, user ≠ "" → made.IsDouble →
      create? policy.secret user made = some original →
      (parts? token).map Prod.snd = (parts? original).map Prod.snd →
      (∀ p q, payload? token = some p → payload? original = some q →
        signature policy.secret p = signature policy.secret q → p = q) →
      ∀ now, verify policy now (some token) = .ok none ∨
        verify policy now (some token) = .ok (some user) := by
  constructor
  · intro policy now token user
    exact verify_eq_ok_some_iff
  · intro policy user made original token huser hmade horiginal hsame hapart now
    exact verify_of_same_signature huser hmade horiginal hsame hapart

/-- The encoded part of a token, with a blank inside and with padding. -/
def blanked : List Char := ['d', 'S', '0', ' ', 'x', 'O', 'j', 'U', '=']

theorem decodePayload?_blanked : decodePayload? blanked = some (payload "u-1" 5) := by
  decide +kernel

/-- A text under the signature of a token, with another text of its payload. -/
def blankedToken (secret : String) : String :=
  String.ofList (blanked ++ '.' :: signature secret (payload "u-1" 5))

theorem payload?_blankedToken (secret : String) :
    payload? (blankedToken secret) = some (payload "u-1" 5) := by
  unfold payload? blankedToken
  rw [parts?_ofList, Option.bind_some]
  exact decodePayload?_blanked

/-- Five seconds as a double. -/
def fiveSeconds : Binary64 := .finite false (5 * Binary64.one)

theorem fiveSeconds_isDouble : fiveSeconds.IsDouble := by
  constructor
  · decide +kernel
  · decide +kernel

theorem truncate?_fiveSeconds : fiveSeconds.truncate? = some 5 := by
  rw [fiveSeconds, Binary64.truncate?, Nat.mul_div_cancel 5 Binary64.one_pos]
  rfl

theorem speaks_for_one_user_sample :
    create? "secret" "u-1" fiveSeconds = some (createAt "secret" "u-1" 5) ∧
      payload? (blankedToken "secret") = payload? (createAt "secret" "u-1" 5) ∧
      (verify { secret := "secret" } fiveSeconds (some (blankedToken "secret")) = .ok none ∨
        verify { secret := "secret" } fiveSeconds (some (blankedToken "secret")) =
          .ok (some "u-1")) := by
  have hcreate : create? "secret" "u-1" fiveSeconds = some (createAt "secret" "u-1" 5) := by
    rw [create?, truncate?_fiveSeconds, Option.map_some]
  have hpayload : payload? (blankedToken "secret") = payload? (createAt "secret" "u-1" 5) := by
    rw [payload?_blankedToken, payload?_createAt]
  have hsame : (parts? (blankedToken "secret")).map Prod.snd =
      (parts? (createAt "secret" "u-1" 5)).map Prod.snd := by
    rw [blankedToken, parts?_ofList, parts?_createAt, Option.map_some, Option.map_some]
  have hapart : ∀ p q, payload? (blankedToken "secret") = some p →
      payload? (createAt "secret" "u-1" 5) = some q →
      signature "secret" p = signature "secret" q → p = q := by
    intro p q hp hq _
    rw [hpayload, hq] at hp
    exact (Option.some.inj hp).symm
  exact ⟨hcreate, hpayload, speaks_for_one_user.2 { secret := "secret" } "u-1" fiveSeconds _ _
    (by decide) fiveSeconds_isDouble hcreate hsame hapart fiveSeconds⟩

end Token

end PuzzleContest
