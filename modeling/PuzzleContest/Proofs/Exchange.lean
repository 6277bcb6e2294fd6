import PuzzleContest.Catalog
import PuzzleContest.Proofs.Document

/-!
# What the catalog is asked, and what its replies come to

A question to the catalog client whose step or address is no good is refused without a request, the
step first.  Any other question is one request.  Its reply is accepted under status 200 only, if its
body says what the question is about: for a check an object whose last member of the right name is a
boolean, for an input any object.  Whatever else is replied is refused in the name of the catalog, and
what breaks on the way is passed on as it is.  There are two exceptions: a body whose containers lie
too deep for the one who asks is not refused but breaks the question, and so does a refusal that has to
show an integer of too many digits.

Main definitions:

- `Catalog.Outcome`: what a reply comes to, for one who has room for so many containers.
- `Catalog.Judges`, `Catalog.Gives`: what a body says about an answer, and which input it gives.
- `Catalog.Checked`, `Catalog.Fetched`: what the two questions come to.

Main results:

- `Catalog.result_ask_iff`: what one request comes to.
- `Catalog.check_eq_iff`, `Catalog.fetchInput_eq_iff`: what the two questions come to.
- `Catalog.base_of_slashes`: slashes at the end of an address do not count.
- `Catalog.questions_close`: all of this, and which bodies lie too deep.
-/

namespace PuzzleContest.Catalog

/-! ## One request -/

/-- What a reply comes to, given what makes a body acceptable. -/
inductive Outcome {α : Type} (room : Nat) (accepts : String → α → Prop) :
    Reply → Except Trouble α → Prop
  | accepted {body a} (hshallow : ¬Json.TooDeep room body) (h : accepts body a) :
      Outcome room accepts (.answered 200 body) (.ok a)
  /-- The body is a value, but not an acceptable one. -/
  | unexpected {body v} (hshallow : ¬Json.TooDeep room body) (hspells : Json.Spells body v)
      (h : ∀ a, ¬accepts body a) :
      Outcome room accepts (.answered 200 body) (.error (.refused .catalogUnexpected))
  /-- The body is no value. -/
  | undecodable {body} (hshallow : ¬Json.TooDeep room body) (h : ∀ v, ¬Json.Spells body v) :
      Outcome room accepts (.answered 200 body) (.error (.refused .catalogUndecodable))
  /-- The containers of the body lie too deep, whether or not it is a value. -/
  | tooDeep {body container} (h : Json.read room body = .error (.tooDeep container)) :
      Outcome room accepts (.answered 200 body) (.error (.crashed (.depth container)))
  | status {status body} (h : status ≠ 200) (hwritable : Text.isWritable status = true) :
      Outcome room accepts (.answered status body) (.error (.refused (.catalogStatus status)))
  /-- The status cannot be shown. -/
  | unwritableStatus {status body} (h : status ≠ 200) (hwritable : Text.isWritable status = false) :
      Outcome room accepts (.answered status body) (.error (.crashed .printing))
  | unreachable {reason} :
      Outcome room accepts (.unreachable reason) (.error (.refused (.catalogUnreachable reason)))
  | crashed {crash} : Outcome room accepts (.crashed crash) (.error (.crashed crash))

variable {α : Type} {room : Nat} {body : String}

theorem Trouble.showing_of_writable {n : Int} (h : Text.isWritable n = true) (r : Refusal) :
    Trouble.showing n r = .refused r := by
  rw [Trouble.showing, if_pos h]

theorem Trouble.showing_of_not_writable {n : Int} (h : Text.isWritable n = false) (r : Refusal) :
    Trouble.showing n r = .crashed .printing := by
  rw [Trouble.showing, if_neg (by rw [h]; exact Bool.false_ne_true)]

theorem not_tooDeep_of_read {v : Json} (h : Json.read room body = .ok v) : ¬Json.TooDeep room body := by
  rintro ⟨container, hdeep⟩
  rw [h] at hdeep
  simp at hdeep

theorem decode_of_read {v : Json} (h : Json.read room body = .ok v) :
    decode room (.answered 200 body) = .ok v := by
  simp [decode, h]

theorem decode_of_error {e : Json.ReadError} (h : Json.read room body = .error e)
    (hshallow : ¬Json.TooDeep room body) :
    decode room (.answered 200 body) = .error (.refused .catalogUndecodable) := by
  cases e with
  | malformed offset => simp [decode, h]
  | integerTooLong => simp [decode, h]
  | tooDeep container => exact absurd ⟨container, h⟩ hshallow

theorem decode_of_tooDeep {container : Json.Container}
    (h : Json.read room body = .error (.tooDeep container)) :
    decode room (.answered 200 body) = .error (.crashed (.depth container)) := by
  simp [decode, h]

theorem decode_of_status {status : Int} (h : status ≠ 200) (body : String) :
    decode room (.answered status body) = .error (.showing status (.catalogStatus status)) := by
  simp [decode, h]

section

variable {accepts : String → α → Prop} {read : Json → Option α}
  (haccepts : ∀ body a, accepts body a ↔ ∃ v, Json.Spells body v ∧ read v = some a)

include haccepts

/-- What one request comes to is an outcome of its reply. -/
theorem outcome_ask (send : Request → Reply) (request : Request) :
    Outcome room accepts (send request) (ask send room request read).result := by
  unfold ask
  generalize send request = reply
  dsimp only
  cases reply with
  | unreachable reason => exact .unreachable
  | crashed crash => exact .crashed
  | answered status body =>
    by_cases hstatus : status = 200
    · subst hstatus
      cases hread : Json.read room body with
      | ok v =>
        have hshallow := not_tooDeep_of_read hread
        have hspells := Json.spells_of_read hread
        rw [decode_of_read hread]
        dsimp only
        cases hvalue : read v with
        | some a => exact .accepted hshallow ((haccepts body a).2 ⟨v, hspells, hvalue⟩)
        | none =>
          refine .unexpected hshallow hspells fun a ha => ?_
          obtain ⟨w, hw, hwa⟩ := (haccepts body a).1 ha
          rw [hspells.unique hw, hwa] at hvalue
          simp at hvalue
      | error e =>
        by_cases hdeep : Json.TooDeep room body
        · obtain ⟨container, hdeep⟩ := hdeep
          rw [decode_of_tooDeep hdeep]
          exact .tooDeep hdeep
        · rw [decode_of_error hread hdeep]
          refine .undecodable hdeep fun v hv => ?_
          rw [(Json.read_eq_ok_iff hdeep).2 hv] at hread
          simp at hread
    · rw [decode_of_status hstatus]
      dsimp only
      cases hwritable : Text.isWritable status with
      | true =>
        rw [Trouble.showing_of_writable hwritable]
        exact .status hstatus hwritable
      | false =>
        rw [Trouble.showing_of_not_writable hwritable]
        exact .unwritableStatus hstatus hwritable

/-- What one request comes to is the outcome of its reply. -/
theorem result_ask_iff {send : Request → Reply} {request : Request} {x : Except Trouble α} :
    (ask send room request read).result = x ↔ Outcome room accepts (send request) x := by
  constructor
  · rintro rfl
    exact outcome_ask haccepts send request
  · unfold ask
    generalize send request = reply
    dsimp only
    intro h
    cases h with
    | accepted hshallow ha =>
      obtain ⟨v, hv, hva⟩ := (haccepts _ _).1 ha
      rw [decode_of_read ((Json.read_eq_ok_iff hshallow).2 hv)]
      simp [hva]
    | @unexpected body v hshallow hv hnot =>
      rw [decode_of_read ((Json.read_eq_ok_iff hshallow).2 hv)]
      cases hvalue : read v with
      | some a => exact absurd ((haccepts body a).2 ⟨v, hv, hvalue⟩) (hnot a)
      | none => simp [hvalue]
    | @undecodable body hshallow hnone =>
      cases hread : Json.read room body with
      | ok v => exact absurd (Json.spells_of_read hread) (hnone v)
      | error e => rw [decode_of_error hread hshallow]
    | tooDeep hdeep => rw [decode_of_tooDeep hdeep]
    | status hstatus hwritable =>
      rw [decode_of_status hstatus, Trouble.showing_of_writable hwritable]
    | unwritableStatus hstatus hwritable =>
      rw [decode_of_status hstatus, Trouble.showing_of_not_writable hwritable]
    | unreachable | crashed => rfl

end

/-! ## The two questions -/

/-- A body judges an answer: it is an object whose last member of the right name is a boolean. -/
def Judges (body : String) (b : Bool) : Prop :=
  ∃ ms, Json.SpellsObject body ms ∧ Json.IsLast ms "matches" (.bool b)

/-- A body gives an input: it is an object, of whose members with one name the last counts. -/
def Gives (body : String) (v : Json) : Prop :=
  ∃ ms, Json.SpellsObject body ms ∧ v = .object (Json.collect [] ms)

theorem verdict?_eq_some_iff {v : Json} {b : Bool} : verdict? v = some b ↔
    ∃ members, v = .object members ∧ Json.lookup "matches" members = some (.bool b) := by
  unfold verdict? Json.get?
  cases v with
  | object members =>
    dsimp only
    split
    · rename_i c hlookup
      simp [hlookup]
    · rename_i hnot
      constructor
      · simp
      · rintro ⟨members', hmembers, hlookup⟩
        rw [Json.object.injEq] at hmembers
        exact absurd (hmembers ▸ hlookup) (hnot b)
  | null | bool | int | float | text | unpaired | list => simp

theorem judges_iff (body : String) (b : Bool) :
    Judges body b ↔ ∃ v, Json.Spells body v ∧ verdict? v = some b := by
  constructor
  · rintro ⟨ms, hms, hlast⟩
    refine ⟨_, Json.spells_object_iff.2 ⟨ms, hms, rfl⟩, verdict?_eq_some_iff.2 ⟨_, rfl, ?_⟩⟩
    exact Json.lookup_collect_iff.2 hlast
  · rintro ⟨v, hv, hverdict⟩
    obtain ⟨members, rfl, hlookup⟩ := verdict?_eq_some_iff.1 hverdict
    obtain ⟨ms, hms, rfl⟩ := Json.spells_object_iff.1 hv
    exact ⟨ms, hms, Json.lookup_collect_iff.1 hlookup⟩

theorem object?_eq_some_iff {v w : Json} :
    object? v = some w ↔ ∃ members, v = .object members ∧ w = .object members := by
  unfold object?
  cases v with
  | object members => simp [eq_comm]
  | null | bool | int | float | text | unpaired | list => simp

theorem gives_iff (body : String) (w : Json) :
    Gives body w ↔ ∃ v, Json.Spells body v ∧ object? v = some w := by
  constructor
  · rintro ⟨ms, hms, rfl⟩
    exact ⟨_, Json.spells_object_iff.2 ⟨ms, hms, rfl⟩, object?_eq_some_iff.2 ⟨_, rfl, rfl⟩⟩
  · rintro ⟨v, hv, hobject⟩
    obtain ⟨members, rfl, rfl⟩ := object?_eq_some_iff.1 hobject
    obtain ⟨ms, hms, rfl⟩ := Json.spells_object_iff.1 hv
    exact ⟨ms, hms, rfl⟩

/-- What the check of an answer comes to, and which requests are made for it. -/
inductive Checked (send : Request → Reply) (client : Client) (address theme puzzle : String)
    (step : Int) (user answer : String) : Exchange Bool → Prop
  | unknownStep (hfirst : step ≠ 1) (hsecond : step ≠ 2) (hwritable : Text.isWritable step = true) :
      Checked send client address theme puzzle step user answer
        ⟨.error (.refused (.unknownStep step)), []⟩
  /-- The step cannot be shown. -/
  | unwritableStep (hfirst : step ≠ 1) (hsecond : step ≠ 2)
      (hwritable : Text.isWritable step = false) :
      Checked send client address theme puzzle step user answer ⟨.error (.crashed .printing), []⟩
  | withoutAddress (hstep : step = 1 ∨ step = 2) (haddress : address = "") :
      Checked send client address theme puzzle step user answer
        ⟨.error (.refused .catalogWithoutAddress), []⟩
  | asked {path request result}
      (hstep : (step = 1 ∧ path = "/puzzle/check/first") ∨
        (step = 2 ∧ path = "/puzzle/check/second"))
      (haddress : address ≠ "")
      (hrequest : request = ⟨resource address path,
        puzzleParams theme puzzle user ++ [("solution", answer)], client.timeout⟩)
      (houtcome : Outcome client.room Judges (send request) result) :
      Checked send client address theme puzzle step user answer ⟨result, [request]⟩

/-- What the question for an input comes to, and which requests are made for it. -/
inductive Fetched (send : Request → Reply) (client : Client) (address theme puzzle user : String) :
    Exchange Json → Prop
  | withoutAddress (haddress : address = "") :
      Fetched send client address theme puzzle user ⟨.error (.refused .catalogWithoutAddress), []⟩
  | asked {request result} (haddress : address ≠ "")
      (hrequest : request = ⟨resource address inputPath, puzzleParams theme puzzle user, client.timeout⟩)
      (houtcome : Outcome client.room Gives (send request) result) :
      Fetched send client address theme puzzle user ⟨result, [request]⟩

variable {send : Request → Reply} {client : Client} {address theme puzzle user answer : String}
  {step : Int}

theorem checkPath?_eq_some_iff {path : String} : checkPath? step = some path ↔
    (step = 1 ∧ path = "/puzzle/check/first") ∨ (step = 2 ∧ path = "/puzzle/check/second") := by
  unfold checkPath?
  split
  · rename_i hfirst
    simp [hfirst, eq_comm]
  · split
    · rename_i hsecond
      simp [hsecond, eq_comm]
    · rename_i hfirst hsecond
      simp [hfirst, hsecond]

theorem checkPath?_eq_none_iff : checkPath? step = none ↔ step ≠ 1 ∧ step ≠ 2 := by
  unfold checkPath?
  split
  · simp_all
  · split <;> simp_all

theorem check_of_path {path : String} (hpath : checkPath? step = some path) (h : address ≠ "") :
    check send client address theme puzzle step user answer =
      ask send client.room ⟨resource address path,
        puzzleParams theme puzzle user ++ [("solution", answer)], client.timeout⟩ verdict? := by
  simp [check, hpath, h]

/-- The check of an answer comes to what it should. -/
theorem check_eq_iff {x : Exchange Bool} :
    check send client address theme puzzle step user answer = x ↔
      Checked send client address theme puzzle step user answer x := by
  constructor
  · rintro rfl
    cases hpath : checkPath? step with
    | none =>
      obtain ⟨hfirst, hsecond⟩ := checkPath?_eq_none_iff.1 hpath
      simp only [check, hpath]
      cases hwritable : Text.isWritable step with
      | true =>
        rw [Trouble.showing_of_writable hwritable]
        exact .unknownStep hfirst hsecond hwritable
      | false =>
        rw [Trouble.showing_of_not_writable hwritable]
        exact .unwritableStep hfirst hsecond hwritable
    | some path =>
      have hstep := checkPath?_eq_some_iff.1 hpath
      by_cases haddress : address = ""
      · simp only [check, hpath, haddress, if_true, Exchange.refused]
        exact .withoutAddress (hstep.imp And.left And.left) rfl
      · rw [check_of_path hpath haddress]
        exact .asked hstep haddress rfl (outcome_ask judges_iff _ _)
  · intro h
    cases h with
    | unknownStep hfirst hsecond hwritable =>
      simp [check, checkPath?_eq_none_iff.2 ⟨hfirst, hsecond⟩, Trouble.showing_of_writable hwritable]
    | unwritableStep hfirst hsecond hwritable =>
      simp [check, checkPath?_eq_none_iff.2 ⟨hfirst, hsecond⟩,
        Trouble.showing_of_not_writable hwritable]
    | withoutAddress hstep haddress =>
      rcases hstep with rfl | rfl <;> simp [check, checkPath?, haddress, Exchange.refused]
    | asked hstep haddress hrequest houtcome =>
      rw [check_of_path (checkPath?_eq_some_iff.2 hstep) haddress, ← hrequest,
        ← (result_ask_iff judges_iff).2 houtcome]
      rfl

/-- The question for an input comes to what it should. -/
theorem fetchInput_eq_iff {x : Exchange Json} :
    fetchInput send client address theme puzzle user = x ↔
      Fetched send client address theme puzzle user x := by
  unfold fetchInput
  constructor
  · rintro rfl
    split
    · rename_i haddress
      exact .withoutAddress haddress
    · rename_i haddress
      exact .asked haddress rfl (outcome_ask gives_iff _ _)
  · intro h
    cases h with
    | withoutAddress haddress => rw [if_pos haddress]; rfl
    | asked haddress hrequest houtcome =>
      rw [if_neg haddress, ← hrequest, ← (result_ask_iff gives_iff).2 houtcome]
      rfl

/-! ## Addresses and refusals -/

/-- Two addresses that differ in the number of slashes at their ends. -/
def SameAddress (a b : String) : Prop := a ≠ "" ∧ b ≠ "" ∧
  ∃ core i j, a.toList = core ++ List.replicate i '/' ∧ b.toList = core ++ List.replicate j '/'

/-- Slashes at the end of an address do not count. -/
theorem base_of_slashes {core : List Char} {i : Nat}
    (h : address.toList = core ++ List.replicate i '/') :
    base address = (core.reverse.dropWhile (· = '/')).reverse := by
  unfold base
  rw [h, List.reverse_append, List.reverse_replicate, List.dropWhile_append_of_pos]
  intro c hc
  rw [List.eq_of_mem_replicate hc]
  rfl

theorem SameAddress.resource_eq {a b : String} (h : SameAddress a b) (path : String) :
    resource a path = resource b path := by
  obtain ⟨-, -, core, i, j, ha, hb⟩ := h
  rw [resource, resource, base_of_slashes ha, base_of_slashes hb]

theorem SameAddress.check_eq {a b : String} (h : SameAddress a b) :
    check send client a theme puzzle step user answer =
      check send client b theme puzzle step user answer := by
  unfold check
  split
  · rfl
  · rw [if_neg h.1, if_neg h.2.1, h.resource_eq]

theorem SameAddress.fetchInput_eq {a b : String} (h : SameAddress a b) :
    fetchInput send client a theme puzzle user = fetchInput send client b theme puzzle user := by
  rw [fetchInput, fetchInput, if_neg h.1, if_neg h.2.1, h.resource_eq]

/-- Replies are refused in the name of the catalog. -/
theorem Outcome.kind_eq {accepts : String → α → Prop} {reply : Reply} {r : Refusal}
    (h : Outcome room accepts reply (.error (.refused r))) : r.kind = .catalog := by
  cases h <;> rfl

/--
The catalog is asked as it should be, and its replies come to what they should, with two exceptions: a
body whose containers lie too deep for the client is not refused but breaks the question, and so does a
refusal that cannot be written.  It takes more opening brackets and braces than the client has room for
to break a question in this way, and that many brackets at the front of a body are enough, whatever
follows them.  Replies are refused in the name of the catalog only, and slashes at the end of an address
change nothing.
-/
theorem questions_close (send : Request → Reply) (client : Client)
    (address theme puzzle : String) (step : Int) (user answer : String) :
    (∀ x, check send client address theme puzzle step user answer = x ↔
        Checked send client address theme puzzle step user answer x) ∧
      (∀ x, fetchInput send client address theme puzzle user = x ↔
        Fetched send client address theme puzzle user x) ∧
      (∀ (α : Type) (accepts : String → α → Prop) reply r,
        Outcome client.room accepts reply (.error (.refused r)) → r.kind = .catalog) ∧
      (∀ other, SameAddress address other →
        check send client address theme puzzle step user answer =
            check send client other theme puzzle step user answer ∧
          fetchInput send client address theme puzzle user =
            fetchInput send client other theme puzzle user) ∧
      (∀ body, Json.TooDeep client.room body → client.room < Json.openings body.toList) ∧
      ∀ body count rest, client.room < count → body.toList = List.replicate count '[' ++ rest →
        Json.read client.room body = .error (.tooDeep .list) := by
  refine ⟨fun x => check_eq_iff, fun x => fetchInput_eq_iff, ?_, ?_, ?_, ?_⟩
  · intro α accepts reply r h
    exact h.kind_eq
  · intro other h
    exact ⟨h.check_eq, h.fetchInput_eq⟩
  · intro body h
    exact Json.openings_of_tooDeep h
  · intro body count rest hcount hbody
    exact Json.read_of_brackets hcount hbody

/-- A body of nothing but brackets, one more than there is room for. -/
def brackets (room : Nat) : String := String.ofList (List.replicate (room + 1) '[')

theorem brackets_toList (room : Nat) :
    (brackets room).toList = List.replicate (room + 1) '[' ++ [] := by
  rw [brackets, String.toList_ofList, List.append_nil]

/-- One who waits thirty seconds and has room for nearly a thousand containers inside each other. -/
def plainClient : Client := ⟨.finite false (30 * Binary64.one), 985⟩

/-- A catalog that contradicts itself, one address of it spelled in two ways, and a body of brackets. -/
theorem questions_close_sample :
    let send : Request → Reply := fun _ =>
      .answered 200 "\x7b\"matches\": false, \"matches\": true\x7d"
    let asked := fun address => check send plainClient address "sea" "knots" 1 "player" "42"
    Checked send plainClient "http://catalog//" "sea" "knots" 1 "player" "42"
        (asked "http://catalog//") ∧
      (asked "http://catalog//").result = .ok true ∧
      SameAddress "http://catalog//" "http://catalog" ∧
      asked "http://catalog//" = asked "http://catalog" ∧
      Json.read plainClient.room (brackets plainClient.room) = .error (.tooDeep .list) := by
  intro send asked
  have hsame : SameAddress "http://catalog//" "http://catalog" :=
    ⟨by decide, by decide, "http://catalog".toList, 2, 0, rfl, rfl⟩
  obtain ⟨hcheck, -, -, haddress, -, hdeep⟩ :=
    questions_close send plainClient "http://catalog//" "sea" "knots" 1 "player" "42"
  refine ⟨(hcheck _).1 rfl, ?_, hsame, (haddress _ hsame).1, ?_⟩
  · decide +kernel
  · exact hdeep (brackets plainClient.room) _ [] (Nat.lt_succ_self _) (brackets_toList _)

/-- So the check of an answer does not always come to a verdict, to a refusal in the name of the
catalog, or to what broke on the way: a body of brackets breaks it, whatever room there is. -/
theorem not_forall_check_closed :
    ¬∃ room, ∀ send timeout address theme puzzle step user answer,
      (step = 1 ∨ step = 2) → address ≠ "" →
        let x := check send ⟨timeout, room⟩ address theme puzzle step user answer
        (∃ b, x.result = .ok b) ∨ (∃ r, r.kind = .catalog ∧ x.result = .error (.refused r)) ∨
          ∃ request crash, send request = .crashed crash ∧ x.result = .error (.crashed crash) := by
  rintro ⟨room, h⟩
  have hread : Json.read room (brackets room) = .error (.tooDeep .list) :=
    Json.read_of_brackets (Nat.lt_succ_self _) (brackets_toList _)
  have hresult : (check (fun _ => .answered 200 (brackets room)) ⟨.nan, room⟩ "http://catalog" "sea"
      "knots" 1 "player" "42").result = .error (.crashed (.depth .list)) := by
    have hpath : checkPath? 1 = some "/puzzle/check/first" := rfl
    rw [check_of_path hpath (by decide), result_ask_iff judges_iff]
    exact .tooDeep hread
  rcases h (fun _ => .answered 200 (brackets room)) .nan "http://catalog" "sea" "knots" 1 "player" "42"
    (.inl rfl) (by decide) with ⟨b, hb⟩ | ⟨r, -, hr⟩ | ⟨request, crash, hcrash, -⟩
  · exact absurd (hresult.symm.trans hb) (by simp)
  · exact absurd (hresult.symm.trans hr) (by simp)
  · exact absurd hcrash (by simp)

end PuzzleContest.Catalog
