import PuzzleContest.Cooldown
import PuzzleContest.Form.Scalar

/-!
# Settings

The settings of a running contest, read from JSON data with a default for each.  Unknown members
are ignored.
-/

namespace PuzzleContest

/-- The settings that shape what a contest does. -/
structure Settings where
  threshold1 : Int
  seconds1 : Int
  threshold2 : Int
  seconds2 : Int
  checkTimeout : Binary64
  lockTimeout : Binary64
  sendTimeout : Binary64

namespace Settings

/-- A name with its letters in lower case. -/
def lowerName : Json.Spelling → Json.Spelling
  | .plain name => name.toLower
  | name => name

/-- Check a member that shapes nothing here. -/
def unused {α : Type} (members : List (Json.Spelling × Json)) (name : String) (read : Json → Checked α) :
    Checked Unit :=
  Form.fieldOr members name () fun v => (fun _ => ()) <$> read v

/-- The members that only the surroundings of a contest use, in their order. -/
def surroundings (members : List (Json.Spelling × Json)) : Checked Unit :=
  let text (name : String) := unused members name Form.text
  (fun _ _ _ _ _ _ _ => ()) <$> text "app_name" <*> unused members "debug" Form.switch <*>
    text "log_level" <*> text "database_url" <*> text "secret_key" <*>
    text "session_cookie_name" <*> unused members "session_max_age_seconds" Form.integer

/-- The settings in the members of an object.  The case of names does not matter. -/
def ofMembers (given : List (Json.Spelling × Json)) : Checked Settings :=
  let members := given.map fun m => (lowerName m.1, m.2)
  let integer (name : String) (default : Int) := Form.fieldOr members name default Form.integer
  let number (name : String) (default : Int) :=
    Form.fieldOr members name (Binary64.ofInt default) Form.number
  (fun _ t1 s1 t2 s2 check lock send => ⟨t1, s1, t2, s2, check, lock, send⟩) <$>
    surroundings members <*>
    integer "rate_limit_attempts_threshold_1" 3 <*> integer "rate_limit_cooldown_1_seconds" 180 <*>
    integer "rate_limit_attempts_threshold_2" 5 <*> integer "rate_limit_cooldown_2_seconds" 300 <*>
    number "checker_timeout_seconds" 30 <*> number "lock_timeout_seconds" 10 <*>
    number "broadcast_send_timeout_seconds" 2

/-- A number of seconds in nanoseconds; one without bound is as good as none. -/
def nanosOf (x : Binary64) : Int :=
  match x with
  | .finite negative units =>
    Binary64.signedUnits negative (Binary64.nearest (units * 1000000000) Binary64.one)
  | .infinite false => Binary64.tenTo 30
  | _ => 0

/-- A number of seconds as the nanoseconds that somebody has, who has no time at all if it is zero
or below. -/
def patienceOf (x : Binary64) : Option Nat :=
  if Binary64.intLt 0 x || x = .nan then some (nanosOf x).toNat else none

/-- The cooldown plan that settings ask for. -/
def plan (s : Settings) : Except Cooldown.Misconfiguration Cooldown.Plan :=
  Cooldown.Plan.ofSeconds s.threshold1 s.threshold2 s.seconds1 s.seconds2

end Settings

end PuzzleContest
