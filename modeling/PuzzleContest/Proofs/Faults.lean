import PuzzleContest.Proofs.Roundtrip
import PuzzleContest.Site

/-!
# Tokens that bring their check down

Almost every text is either accepted for a user or for nobody.  Two kinds are not: a text that hides a
payload before a signature with characters outside of ASCII, which needs no secret to be made, and a
text whose payload is signed and names a second that has no double.  No setting and no clock reading
matters for that, except for the secret of the second kind.

Main definitions:

- `Token.Breaks`: the texts that bring their check down.

Main results:

- `Token.verify_eq_error_iff`: there are no others.
- `Token.breaks_createAt`: a token of a second that is far enough away is one of them.
- `Site.authenticate_cases`: what their senders are told, and what all others are told who speak for
  nobody.
- `Token.verify_total_except`: all of this for all settings, clock readings, texts and requests.
-/

namespace PuzzleContest

namespace Token

variable {policy : Policy} {now : Binary64} {token user : String} {fault : Fault}

/-- The texts that bring their check down. -/
inductive Breaks (policy : Policy) (token : String) : Fault → Prop
  /-- A payload is hidden before a signature that is not in ASCII. -/
  | signatureNotAscii {encoded signed : List Char} {p : List UInt8} {c : Char}
      (token_eq : token.toList = encoded ++ '.' :: signed) (signed_last : '.' ∉ signed)
      (decoded : decodePayload? encoded = some p) (mem : c ∈ signed) (foreign : 128 ≤ c.toNat) :
      Breaks policy token .signatureNotAscii
  /-- The payload is signed, and its second lies beyond the midpoint above the greatest double. -/
  | timeTooLarge {encoded stamp : List Char} {p : List UInt8} {user : String} {time : Int}
      (token_eq : token.toList = encoded ++ '.' :: signature policy.secret p)
      (decoded : decodePayload? encoded = some p)
      (payload_eq : p = bytes (user.toList ++ ':' :: stamp)) (stamp_last : ':' ∉ stamp)
      (user_ne : user ≠ "") (stamp_reads : Text.readInteger? stamp = some time)
      (far : Binary64.twoTo 1024 - Binary64.twoTo 970 ≤ time.natAbs) :
      Breaks policy token .timeTooLarge

theorem isAscii_eq_false_iff {s : List Char} : isAscii s = false ↔ ∃ c ∈ s, 128 ≤ c.toNat := by
  simp [isAscii]

/-- Reading the age of a token fails if and only if its second has no double. -/
theorem isExpired_eq_error_iff {maxAge time : Int} :
    isExpired maxAge now time = .error fault ↔
      fault = .timeTooLarge ∧ Binary64.twoTo 1024 - Binary64.twoTo 970 ≤ time.natAbs := by
  rw [← Binary64.ofInt?_eq_none_iff, isExpired]
  cases Binary64.ofInt? time with
  | none => simp [eq_comm]
  | some made => simp

theorem except_map_eq_error_iff {ε α β : Type} {x : Except ε α} {f : α → β} {e : ε} :
    x.map f = .error e ↔ x = .error e := by
  cases x <;> simp [Except.map]

theorem verifyParts_of_not_isAscii {encoded signed : List Char} {p : List UInt8}
    (h : decodePayload? encoded = some p) (hsigned : isAscii signed = false) :
    verifyParts policy now encoded signed = .error .signatureNotAscii := by
  simp [verifyParts, h, hsigned]

theorem verifyParts_of_ne {encoded signed : List Char} {p : List UInt8}
    (h : decodePayload? encoded = some p) (hascii : isAscii signed = true)
    (hsigned : signature policy.secret p ≠ signed) :
    verifyParts policy now encoded signed = .ok none := by
  simp [verifyParts, h, hascii, hsigned]

/-- The check of the two parts of a text fails for these reasons only. -/
theorem verifyParts_eq_error_iff {encoded signed : List Char} :
    verifyParts policy now encoded signed = .error fault ↔
      ∃ p, decodePayload? encoded = some p ∧
        ((fault = .signatureNotAscii ∧ ∃ c ∈ signed, 128 ≤ c.toNat) ∨
          (signed = signature policy.secret p ∧ ∃ user time, readPayload? p = some (user, time) ∧
            fault = .timeTooLarge ∧ Binary64.twoTo 1024 - Binary64.twoTo 970 ≤ time.natAbs)) := by
  cases hdecode : decodePayload? encoded with
  | none => simp [verifyParts, hdecode]
  | some p =>
    cases hascii : isAscii signed with
    | false =>
      have hforeign := isAscii_eq_false_iff.1 hascii
      have hne : signed ≠ signature policy.secret p := by
        rintro rfl
        rw [isAscii_signature] at hascii
        exact absurd hascii (by decide)
      simp [verifyParts_of_not_isAscii hdecode hascii, hforeign, hne, eq_comm]
    | true =>
      have hplain : ¬∃ c ∈ signed, 128 ≤ c.toNat := by
        rw [← isAscii_eq_false_iff, hascii]
        simp
      by_cases hsigned : signature policy.secret p = signed
      · subst hsigned
        rw [verifyParts_signature hdecode]
        cases hread : readPayload? p with
        | none => simp [hplain, hread]
        | some named =>
          obtain ⟨user, time⟩ := named
          dsimp only
          rw [except_map_eq_error_iff, isExpired_eq_error_iff]
          constructor
          · rintro ⟨rfl, hfar⟩
            exact ⟨p, rfl, .inr ⟨rfl, user, time, hread, rfl, hfar⟩⟩
          · rintro ⟨q, hq, hreason⟩
            obtain rfl := Option.some.inj hq
            rcases hreason with ⟨-, hforeign⟩ | ⟨-, name, second, hread', rfl, hfar⟩
            · exact absurd hforeign hplain
            · rw [hread, Option.some.injEq, Prod.mk.injEq] at hread'
              exact ⟨rfl, hread'.2 ▸ hfar⟩
      · simp [verifyParts_of_ne hdecode hascii hsigned, hplain, Ne.symm hsigned]

/-- The check of a text fails if and only if the text is one of these, whatever the clock says. -/
theorem verify_eq_error_iff :
    verify policy now (some token) = .error fault ↔ Breaks policy token fault := by
  constructor
  · intro h
    cases hparts : parts? token with
    | none => simp [verify_of_parts?_none hparts] at h
    | some parts =>
      obtain ⟨encoded, signed⟩ := parts
      obtain ⟨htoken, hlast⟩ := parts?_eq_some_iff.1 hparts
      rw [verify_of_parts? hparts, verifyParts_eq_error_iff] at h
      obtain ⟨p, hdecode, h⟩ := h
      rcases h with ⟨rfl, c, hc, hforeign⟩ | ⟨rfl, user, time, hread, rfl, hfar⟩
      · exact .signatureNotAscii htoken hlast hdecode hc hforeign
      · obtain ⟨hne, stamp, hpayload, hcolon, hstamp⟩ := readPayload?_eq_some_iff.1 hread
        exact .timeTooLarge htoken hdecode hpayload hcolon hne hstamp hfar
  · intro h
    cases h with
    | signatureNotAscii htoken hlast hdecode hc hforeign =>
      rw [verify_of_parts? (parts?_eq_some_iff.2 ⟨htoken, hlast⟩), verifyParts_eq_error_iff]
      exact ⟨_, hdecode, .inl ⟨rfl, _, hc, hforeign⟩⟩
    | @timeTooLarge _ _ p _ _ htoken hdecode hpayload hcolon hne hstamp hfar =>
      have hlast := dot_not_mem_signature policy.secret p
      rw [verify_of_parts? (parts?_eq_some_iff.2 ⟨htoken, hlast⟩), verifyParts_eq_error_iff]
      have hread := readPayload?_eq_some_iff.2 ⟨hne, _, hpayload, hcolon, hstamp⟩
      exact ⟨_, hdecode, .inr ⟨rfl, _, _, hread, rfl, hfar⟩⟩

/-- A token of a second that is far enough away is one of these. -/
theorem breaks_createAt {time : Int} (huser : user ≠ "")
    (hfar : Binary64.twoTo 1024 - Binary64.twoTo 970 ≤ time.natAbs)
    (hdigits : time.natAbs < 10 ^ Text.digitLimit) :
    Breaks policy (createAt policy.secret user time) .timeTooLarge :=
  .timeTooLarge (parts?_eq_some_iff.1 (parts?_createAt _ _ _)).1 (decodePayload?_encode _ _) rfl
    (colon_not_mem_integerText time) huser (Text.readInteger?_integerText hdigits) hfar

end Token

namespace Site

/-- Whoever speaks for nobody is told so, except for those whose text breaks the check. -/
theorem authenticate_cases (s : Site) (r : Request) (content : Request.Content) (route : Route) :
    (∃ player, s.identify r = .ok (some player)) ∨
      s.authenticate r content route = (.objection .notAuthenticated, s) ∨
      ∃ token fault, s.tokenOf r = some token ∧ Token.Breaks s.tokens token fault ∧
        s.authenticate r content route = (.broken (.token fault), s) := by
  unfold authenticate
  cases hidentify : s.identify r with
  | ok player =>
    cases player with
    | none => exact .inr (.inl rfl)
    | some player => exact .inl ⟨player, rfl⟩
  | error fault =>
    unfold identify at hidentify
    cases htoken : s.tokenOf r with
    | none =>
      rw [htoken] at hidentify
      exact absurd hidentify (by simp [Token.verify])
    | some token =>
      rw [htoken, Token.verify_eq_error_iff] at hidentify
      exact .inr (.inr ⟨token, fault, rfl, hidentify, rfl⟩)

end Site

/--
Checking a text comes to a user or to nobody, unless the text is one of two kinds: it hides a payload
before a signature that is not in ASCII, or its payload is signed and names a second that has no
double.  These break every check, and no others break any.  So those who speak for nobody are told that
they are not authenticated, or the request breaks for one of these two reasons; the site stays as it is.
-/
theorem Token.verify_total_except (policy : Policy) (now : Binary64) (token : Option String)
    (s : Site) (r : Site.Request) (content : Site.Request.Content) (route : Site.Route) :
    (∀ fault, verify policy now token = .error fault ↔
        ∃ text, token = some text ∧ Breaks policy text fault) ∧
      ((∃ user, verify policy now token = .ok user) ↔
        ∀ text fault, token = some text → ¬Breaks policy text fault) ∧
      ((∃ player, s.identify r = .ok (some player)) ∨
        s.authenticate r content route = (.objection .notAuthenticated, s) ∨
        ∃ text fault, s.tokenOf r = some text ∧ Breaks s.tokens text fault ∧
          s.authenticate r content route = (.broken (.token fault), s)) := by
  have hfault : ∀ fault, verify policy now token = .error fault ↔
      ∃ text, token = some text ∧ Breaks policy text fault := by
    intro fault
    cases token with
    | none => simp [verify]
    | some text => simp [verify_eq_error_iff]
  refine ⟨hfault, ?_, s.authenticate_cases r content route⟩
  constructor
  · rintro ⟨user, huser⟩ text fault htoken hbreaks
    rw [(hfault fault).2 ⟨text, htoken, hbreaks⟩] at huser
    exact absurd huser (by simp)
  · intro hsound
    cases hverify : verify policy now token with
    | ok user => exact ⟨user, rfl⟩
    | error fault =>
      obtain ⟨text, htoken, hbreaks⟩ := (hfault fault).1 hverify
      exact absurd hbreaks (hsound text fault htoken)

/-- So not every text is accepted for a user or for nobody: a payload of one letter before a signature
with an accent is enough. -/
theorem Token.not_forall_verify_ok :
    ¬∀ policy now token, Binary64.isFinite now = true →
      ∃ user, verify policy now token = .ok user := by
  intro h
  obtain ⟨user, huser⟩ := h {} (.finite false 0) (some "YQ.é") rfl
  have hbroken : verify {} (.finite false 0) (some "YQ.é") = .error .signatureNotAscii := rfl
  rw [hbroken] at huser
  exact absurd huser (by simp)

end PuzzleContest
