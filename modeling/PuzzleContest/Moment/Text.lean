import PuzzleContest.Binary64.Decimal
import PuzzleContest.Json
import PuzzleContest.Moment

/-!
# Moments as text

A moment is written as `2026-10-19T12:00:00.500000+02:00`: no fraction when the microseconds are
zero, otherwise six digits.  The mark of universal time is a choice of the writer.

Main definitions:

- `Moment.render`: the written form.
- `Moment.ofText?`: the readings of a written moment, with one to six fraction digits.
- `Moment.ofJson?`: the generous reading of event data, where timestamps and bare dates count too.
-/

namespace PuzzleContest.Moment

/-! ## Writing -/

/-- A number with at least so many digits. -/
def padded (width n : Nat) : List Char :=
  let digits := Nat.toDigits 10 n
  List.replicate (width - digits.length) '0' ++ digits

/-- The written form of a distance from universal time, with seconds only if there are any. -/
def offsetText (utc : List Char) (offset : Int) : List Char :=
  if offset = 0 then utc
  else
    let n := offset.natAbs
    (if offset < 0 then '-' else '+') :: padded 2 (n / 3600) ++ ':' :: padded 2 (n / 60 % 60) ++
      (if n % 60 = 0 then [] else ':' :: padded 2 (n % 60))

/-- The written form of a moment, given the mark of universal time. -/
def render (utc : String) (m : Moment) : String :=
  let days := (m.wall / day).toNat
  let micros := (m.wall % day).toNat
  let seconds := micros / 1000000
  let fraction := micros % 1000000
  let date := Date.ofDayNumber days
  String.ofList <|
    padded 4 date.year ++ '-' :: padded 2 date.month ++ '-' :: padded 2 date.day ++
    'T' :: padded 2 (seconds / 3600) ++ ':' :: padded 2 (seconds / 60 % 60) ++
    ':' :: padded 2 (seconds % 60) ++
    (if fraction = 0 then [] else '.' :: padded 6 fraction) ++
    (match m.offset with
      | none => []
      | some offset => offsetText utc.toList offset)

/-- How events and listings write a moment: universal time is marked by a letter. -/
def text (m : Moment) : String := render "Z" m.inUtc

/-- How the clock's own reading is written: universal time is a distance like any other. -/
def clockText (m : Moment) : String := render "+00:00" m.inUtc

/-! ## Reading -/

/-- Exactly so many digits at the front, as a number, and the rest. -/
def digits? : Nat → List Char → Option (Nat × List Char)
  | 0, s => some (0, s)
  | n + 1, s => do
    let (front, rest) ← digits? n s
    match rest with
    | c :: after => return (10 * front + (← Text.asciiDigitValue? c), after)
    | [] => none

/-- A given character at the front; the rest. -/
def expect? (accepted : Char → Bool) : List Char → Option (List Char)
  | c :: rest => if accepted c then some rest else none
  | [] => none

/-- A date at the front. -/
def date? (s : List Char) : Option (Date × List Char) := do
  let (year, s) ← digits? 4 s
  let (month, s) ← digits? 2 (← expect? (· = '-') s)
  let (d, s) ← digits? 2 (← expect? (· = '-') s)
  let date : Date := ⟨year, month, d⟩
  if date.isWellFormed then some (date, s) else none

/-- The days in the year before year 1. -/
def yearZeroDays : Nat := 366

/-- The first reading of a day; that of year 0 lies before all moments. -/
def midnight (date : Date) : Int :=
  ((date.dayNumber : Int) - (if date.year = 0 then yearZeroDays else 0)) * day

/-- A fraction of a second at the front, in microseconds; digits past the sixth are dropped. -/
def fraction? (s : List Char) : Option (Nat × List Char) :=
  match s with
  | '.' :: rest | ',' :: rest =>
    let run := rest.takeWhile Char.isDigit
    if run.isEmpty then none
    else
      let six := (run ++ List.replicate 6 '0').take 6
      some (six.foldl (fun n c => 10 * n + (c.toNat - '0'.toNat)) 0, rest.dropWhile Char.isDigit)
  | _ => some (0, s)

/-- A time of day at the front, in microseconds; the seconds may be missing. -/
def time? (s : List Char) : Option (Nat × List Char) := do
  let (hour, s) ← digits? 2 s
  let (minute, s) ← digits? 2 (← expect? (· = ':') s)
  let (sec, micros, s) ← (match s with
    | ':' :: rest => do
      let (sec, s) ← digits? 2 rest
      let (micros, s) ← fraction? s
      return (sec, micros, s)
    | _ => some (0, 0, s) : Option (Nat × Nat × List Char))
  if hour < 24 ∧ minute < 60 ∧ sec < 60 then
    some (((hour * 60 + minute) * 60 + sec) * 1000000 + micros, s)
  else none

/-- The seconds after the minutes of a distance, where they are allowed. -/
def offsetSeconds? (allowed : Bool) (s : List Char) : Option (Nat × List Char) :=
  match s with
  | ':' :: rest => if allowed then digits? 2 rest else none
  | _ => some (0, s)

/-- A distance from universal time that takes up the whole rest of the text. -/
def offset? (seconds : Bool) (s : List Char) : Option (Option Int) :=
  match s with
  | [] => some none
  | ['Z'] | ['z'] => some (some 0)
  | sign :: rest => do
    let negative ← (if sign = '+' then some false
      else if sign = '-' ∨ sign = '\u2212' then some true else none : Option Bool)
    let (hour, s) ← digits? 2 rest
    let (minute, s) ← digits? 2 ((expect? (· = ':') s).getD s)
    let (sec, s) ← offsetSeconds? seconds s
    if s.isEmpty ∧ hour < 24 ∧ minute < 60 ∧ sec < 60 then
      some (some (Text.signed negative ((hour * 60 + minute) * 60 + sec)))
    else none

/-- The characters that may stand between date and time. -/
def isSeparator (c : Char) : Bool := c = 'T' || c = 't' || c = ' ' || c = '_'

/--
A date and a time of day, with a distance or without one; nothing else around.  The reading may be
of year 0.
-/
def read? (seconds : Bool) (s : List Char) : Option Moment := do
  let (date, s) ← date? s
  let (micros, s) ← time? (← expect? isSeparator s)
  let offset ← offset? seconds s
  return ⟨midnight date + micros, offset⟩

/-- A written moment, whose distance may be exact to the second. -/
def ofText? (s : String) : Option Moment := (read? true s.toList).filter isPossible

/-! ## Generous reading -/

/-- Timestamps beyond this many seconds count milliseconds. -/
def timestampWatershed : Int := 20000000000

/-- The reading so many microseconds after the epoch; year 0 is the first that counts. -/
def ofEpoch? (micros : Int) : Option Moment :=
  let wall := epoch + micros
  if -(yearZeroDays * day) ≤ wall ∧ wall < wallLimit then some ⟨wall, some 0⟩ else none

/-- The moment of a whole timestamp: seconds, or milliseconds where those would be too many. -/
def ofTimestamp? (whole : Int) : Option Moment :=
  ofEpoch? (whole * if timestampWatershed < whole.natAbs then 1000 else second)

/--
The moment of a timestamp as a double.  Milliseconds are first divided down to seconds; of these the
floor counts as it is, and the rest is rounded to microseconds.
-/
def ofDouble? (x : Binary64) : Option Moment := do
  let milliseconds := (Binary64.ofInt timestampWatershed).lt x.abs
  let seconds := if milliseconds then x.scale 1 1000 else x
  let whole ← seconds.floor?
  let micros ← ((seconds.sub (Binary64.ofInt whole)).scale 1000000 1).round?
  ofEpoch? (whole * second + micros)

/-- A timestamp as text: digits alone, or a decimal with a point after its digits. -/
def timestampText? (s : List Char) : Option Moment :=
  let (negative, rest) := Text.splitSign s
  let whole := rest.takeWhile Char.isDigit
  match rest.dropWhile Char.isDigit with
  | [] =>
    if whole.isEmpty then none
    else ofTimestamp? (Text.signed negative (Binary64.digitsValue whole))
  | '.' :: _ => (Binary64.ofDecimalText? s).bind ofDouble?
  | _ => none

/-- A date alone, which counts as its midnight. -/
def bareDate? (s : List Char) : Option Moment := do
  let (date, rest) ← date? s
  if rest.isEmpty then some ⟨midnight date, none⟩ else none

/-- Why a value of event data is no moment. -/
inductive Misfit where
  /-- The value is of a kind that moments are never written in. -/
  | kind
  /-- A text that is neither a moment nor a date. -/
  | text
  /-- A number outside of the range of timestamps, or a reading of year 0. -/
  | range
deriving DecidableEq, Repr

/-- A reading that was found, unless it is of year 0. -/
def possible (failure : Misfit) : Option Moment → Except Misfit Moment
  | none => .error failure
  | some m => if m.isPossible then .ok m else .error .range

/-- The moment that a value of event data stands for. -/
def ofJson? : Json → Except Misfit Moment
  | .text s =>
    let s := s.toList
    possible .text ((read? false s).or ((timestampText? s).or (bareDate? s)))
  | .int n => possible .range (ofTimestamp? n)
  | .float x => possible .range (ofDouble? x)
  | _ => .error .kind

end PuzzleContest.Moment
