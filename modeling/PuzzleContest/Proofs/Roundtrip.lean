import PuzzleContest.Proofs.Rounding

/-!
# How long a token speaks for its user

A token is made at one clock reading and checked at another.  The second in its payload is the integer
part of the first reading, and it is read back whatever the name of the user looks like.  So the token
speaks for its user as long as the two times are near enough, in both directions; and a token that was
made for nobody speaks for nobody.

Main definitions:

- `Binary64.Within`: two doubles are at most a whole number apart.

Main results:

- `Token.verifyParts_signature`: what becomes of a payload under its own signature.
- `Token.verify_createAt`: what becomes of a token.
- `Token.verify_create`: making a token and checking it, for all users, settings and clock readings.
-/

namespace PuzzleContest

namespace Binary64

/-- Two doubles are at most a whole number apart, as doubles are subtracted. -/
def Within (n : Int) (x y : Binary64) : Prop :=
  ∃ units : Nat, (x.sub y).abs = .finite false units ∧ (units : Int) ≤ n * one

/-- The difference of finite doubles is a number, which may be infinite. -/
theorem sub_abs_of_isFinite {x y : Binary64} (hx : x.isFinite = true) (hy : y.isFinite = true) :
    (∃ units, (x.sub y).abs = .finite false units) ∨ (x.sub y).abs = .infinite false := by
  cases x with
  | infinite | nan => simp [isFinite] at hx
  | finite s m =>
    cases y with
    | infinite | nan => simp [isFinite] at hy
    | finite t n =>
      simp only [sub, ofUnits]
      split
      · exact .inl ⟨_, rfl⟩
      · exact .inr rfl

theorem intLt_finite (n : Int) (units : Nat) :
    intLt n (.finite false units) = false ↔ (units : Int) ≤ n * one := by
  rw [intLt, decide_eq_false_iff_not, Int.not_lt]
  rfl

theorem intLt_eq_false_iff {n : Int} {x y : Binary64} (hx : x.isFinite = true)
    (hy : y.isFinite = true) : intLt n (x.sub y).abs = false ↔ Within n x y := by
  unfold Within
  rcases sub_abs_of_isFinite hx hy with ⟨units, h⟩ | h
  · rw [h, intLt_finite]
    constructor
    · exact fun hle => ⟨units, rfl, hle⟩
    · rintro ⟨units', heq, hle⟩
      rw [finite.injEq] at heq
      exact heq.2 ▸ hle
  · rw [h]
    constructor
    · exact fun hle => absurd hle (by simp [intLt])
    · rintro ⟨units', heq, -⟩
      exact absurd heq (by simp)

end Binary64

namespace Token

variable {policy : Policy} {now : Binary64} {user : String} {time : Int} {p : List UInt8}

/-- What becomes of a payload under its own signature. -/
theorem verifyParts_signature {encoded : List Char} (h : decodePayload? encoded = some p) :
    verifyParts policy now encoded (signature policy.secret p) =
      match readPayload? p with
      | none => .ok none
      | some (user, time) => (isExpired policy.maxAge now time).map fun expired =>
          if expired then none else some user := by
  unfold verifyParts
  simp only [h, isAscii_signature, Bool.not_true, Bool.false_eq_true, if_false, ne_eq,
    not_true_eq_false]
  cases readPayload? p with
  | none => rfl
  | some named =>
    obtain ⟨name, t⟩ := named
    dsimp only
    generalize isExpired policy.maxAge now t = result
    cases result with
    | error fault => rfl
    | ok expired => cases expired <;> rfl

theorem decodePayload?_encode (user : String) (time : Int) :
    decodePayload? (Base64.encode (payload user time)) = some (payload user time) := by
  have h := payload?_createAt "" user time
  rw [payload?, parts?_createAt, Option.bind_some] at h
  exact h

/-- What becomes of a token. -/
theorem verify_createAt (policy : Policy) (now : Binary64) (user : String) (time : Int) :
    verify policy now (some (createAt policy.secret user time)) =
      match readPayload? (payload user time) with
      | none => .ok none
      | some (user, time) => (isExpired policy.maxAge now time).map fun expired =>
          if expired then none else some user := by
  rw [verify_of_parts? (parts?_createAt _ _ _), verifyParts_signature (decodePayload?_encode _ _)]

theorem bytes_injective {s t : List Char} (h : bytes s = bytes t) : s = t := by
  have hs : text? (bytes s) = some s := text?_eq_some_iff.2 rfl
  have ht : text? (bytes s) = some t := text?_eq_some_iff.2 h
  exact Option.some.inj (hs.symm.trans ht)

/-- A payload without a user is read as no user's. -/
theorem readPayload?_of_empty (time : Int) : readPayload? (payload "" time) = none := by
  refine Option.eq_none_iff_forall_ne_some.2 ?_
  rintro ⟨user, n⟩ h
  obtain ⟨hne, stamp, hpayload, hlast, -⟩ := readPayload?_eq_some_iff.1 h
  have htext : [] ++ ':' :: Text.integerText time = user.toList ++ ':' :: stamp :=
    bytes_injective hpayload
  have hcut : Text.cutLast? ':' ([] ++ ':' :: Text.integerText time) =
      some ([], Text.integerText time) :=
    Text.cutLast?_eq_some_iff.2 ⟨rfl, colon_not_mem_integerText time⟩
  have hcut' := Text.cutLast?_eq_some_iff.2 ⟨htext, hlast⟩
  rw [hcut, Option.some.injEq, Prod.mk.injEq] at hcut'
  exact hne (String.toList_eq_nil_iff.1 hcut'.1.symm)

/--
A token can be made for every user at every finite clock reading.  Its second, the integer part of the
reading, has a double that is equal to it.  Checked at any other finite reading, the token speaks for
its user if this is not the empty text and the reading is at most the greatest age away from the
second, as doubles are subtracted; else it speaks for nobody.
-/
theorem verify_create (policy : Policy) (user : String) {made now : Binary64}
    (hdouble : made.IsDouble) (hmade : made.isFinite = true) (hnow : now.isFinite = true) :
    ∃ time second token, made.truncate? = some time ∧ Binary64.ofInt? time = some second ∧
      second.toInt? = some time ∧ create? policy.secret user made = some token ∧
      (user ≠ "" ∧ Binary64.Within policy.maxAge now second →
        verify policy now (some token) = .ok (some user)) ∧
      (¬(user ≠ "" ∧ Binary64.Within policy.maxAge now second) →
        verify policy now (some token) = .ok none) := by
  obtain ⟨time, htime⟩ : ∃ time, made.truncate? = some time := by
    cases made with
    | finite negative units => exact ⟨_, rfl⟩
    | infinite | nan => simp [Binary64.isFinite] at hmade
  obtain ⟨second, hsecond, hequal, hfinite⟩ := Binary64.ofInt?_eq_of_truncate? hdouble htime
  have hage := Binary64.intLt_eq_false_iff (n := policy.maxAge) hnow hfinite
  have hexpired : isExpired policy.maxAge now time =
      .ok (Binary64.intLt policy.maxAge (now.sub second).abs) :=
    isExpired_eq_ok_iff.2 ⟨second, hsecond, rfl⟩
  refine ⟨time, second, createAt policy.secret user time, htime, hsecond, hequal, ?_, ?_, ?_⟩
  · rw [create?, htime, Option.map_some]
  · rintro ⟨huser, hwithin⟩
    have hread := readPayload?_payload huser (Binary64.natAbs_truncate_lt hdouble htime)
    rw [verify_createAt, hread]
    dsimp only
    rw [hexpired, hage.2 hwithin]
    rfl
  · intro hnot
    rw [verify_createAt]
    by_cases huser : user = ""
    · rw [huser, readPayload?_of_empty]
    · have hread := readPayload?_payload huser (Binary64.natAbs_truncate_lt hdouble htime)
      have hold : Binary64.intLt policy.maxAge (now.sub second).abs = true := by
        rw [← Bool.not_eq_false, hage]
        exact fun hwithin => hnot ⟨huser, hwithin⟩
      rw [hread]
      dsimp only
      rw [hexpired, hold]
      rfl

/-- Five and a half seconds as a double. -/
def someSeconds : Binary64 := .finite false (11 * Binary64.twoTo 1073)

theorem someSeconds_isDouble : someSeconds.IsDouble := by
  constructor
  · decide +kernel
  · decide +kernel

/-- A user whose name looks like the end of a token is recognized two seconds after the second of the
token, but not twelve seconds before it. -/
theorem verify_create_sample :
    let policy : Policy := { secret := "secret", maxAge := 2 }
    let later : Binary64 := .finite false (7 * Binary64.one)
    let before : Binary64 := .finite true (7 * Binary64.one)
    someSeconds.IsDouble ∧ someSeconds.isFinite = true ∧ later.isFinite = true ∧
      before.isFinite = true ∧ ∃ token, create? policy.secret "ada:7.\n" someSeconds = some token ∧
        verify policy later (some token) = .ok (some "ada:7.\n") ∧
        verify policy before (some token) = .ok none := by
  intro policy later before
  have hlater : later.isFinite = true := rfl
  have hbefore : before.isFinite = true := rfl
  refine ⟨someSeconds_isDouble, rfl, hlater, hbefore, ?_⟩
  have htime : someSeconds.truncate? = some 5 := by decide +kernel
  have hsecond : Binary64.ofInt? 5 = some fiveSeconds := by decide +kernel
  obtain ⟨time, second, token, htime', hsecond', -, htoken, haccepted, -⟩ :=
    verify_create policy "ada:7.\n" someSeconds_isDouble rfl hlater
  obtain ⟨time₂, second₂, token₂, htime₂, hsecond₂, -, htoken₂, -, hrejected⟩ :=
    verify_create policy "ada:7.\n" someSeconds_isDouble rfl hbefore
  obtain rfl : 5 = time := Option.some.inj (htime.symm.trans htime')
  obtain rfl : fiveSeconds = second := Option.some.inj (hsecond.symm.trans hsecond')
  obtain rfl : 5 = time₂ := Option.some.inj (htime.symm.trans htime₂)
  obtain rfl : fiveSeconds = second₂ := Option.some.inj (hsecond.symm.trans hsecond₂)
  obtain rfl : token = token₂ := Option.some.inj (htoken.symm.trans htoken₂)
  refine ⟨token, htoken, haccepted ⟨by decide, 2 * Binary64.one, ?_, ?_⟩, hrejected ?_⟩
  · decide +kernel
  · decide +kernel
  · rintro ⟨-, units, hunits, hle⟩
    have hage : (before.sub fiveSeconds).abs = .finite false (12 * Binary64.one) := by decide +kernel
    rw [hage, Binary64.finite.injEq] at hunits
    rw [← hunits.2] at hle
    revert hle
    decide +kernel

end Token

end PuzzleContest
