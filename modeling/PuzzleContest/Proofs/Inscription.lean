import PuzzleContest.Moment.Text
import PuzzleContest.Proofs.Almanac
import PuzzleContest.Proofs.Numeral

/-!
# Moments read back

A moment whose distance from universal time is a whole number of minutes is read from its written form
as it is, and where the distance was unknown, as universal time.  All moments of event data are such.

Main results:

- `Moment.digits?_padded`: numbers are read back digit by digit.
- `Moment.date?_padded`, `Moment.time?_padded`, `Moment.offset?_offsetText`: so are the parts.
- `Moment.read?_render`: and moments.
- `Moment.writable_of_ofJson?`: moments of event data can be written so.
-/

namespace PuzzleContest.Moment

/-! ## Digits -/

section Digits

variable {n width : Nat}

theorem padded_one (hn : n < 10) : padded 1 n = [n.digitChar] := by
  simp [padded, Nat.toDigits_of_lt_base hn]

/-- The last digit comes off the end. -/
theorem padded_succ (width n : Nat) :
    padded (width + 2) n = padded (width + 1) (n / 10) ++ [(n % 10).digitChar] := by
  unfold padded
  by_cases hn : n < 10
  · simp [Nat.toDigits_of_lt_base hn, Nat.div_eq_of_lt hn, Nat.mod_eq_of_lt hn, List.replicate_succ']
  · have hdigits : Nat.toDigits 10 n = Nat.toDigits 10 (n / 10) ++ [(n % 10).digitChar] :=
      Nat.toDigits_of_base_le (by decide) (by omega)
    have hlength : width + 2 - ((Nat.toDigits 10 (n / 10)).length + 1) =
        width + 1 - (Nat.toDigits 10 (n / 10)).length := by omega
    simp [hdigits, hlength]

theorem asciiDigitValue?_digitChar {d : Nat} (hd : d < 10) :
    Text.asciiDigitValue? d.digitChar = some d := by
  revert d
  decide

theorem isDigit_of_mem_padded {c : Char} (h : c ∈ padded width n) : c.isDigit = true := by
  rcases List.mem_append.1 h with hzero | hdigit
  · rw [List.eq_of_mem_replicate hzero]
    rfl
  · exact Text.isDigit_of_mem_toDigits hdigit

theorem length_padded (hn : n < 10 ^ (width + 1)) : (padded (width + 1) n).length = width + 1 := by
  have hlength : (Nat.toDigits 10 n).length ≤ width + 1 :=
    (Nat.length_toDigits_le_iff (by decide) (by omega)).2 hn
  simp only [padded, List.length_append, List.length_replicate]
  omega

/-- A number is read back from its digits, whatever follows. -/
theorem digits?_padded (hn : n < 10 ^ (width + 1)) (rest : List Char) :
    digits? (width + 1) (padded (width + 1) n ++ rest) = some (n, rest) := by
  induction width generalizing n rest with
  | zero => simp [padded_one hn, digits?, asciiDigitValue?_digitChar hn]
  | succ width ih =>
    have hfront : n / 10 < 10 ^ (width + 1) := by
      rw [Nat.div_lt_iff_lt_mul (by decide), ← Nat.pow_succ]
      exact hn
    have hvalue : 10 * (n / 10) + n % 10 = n := Nat.div_add_mod n 10
    rw [padded_succ, List.append_assoc, digits?, ih hfront]
    simp [asciiDigitValue?_digitChar (Nat.mod_lt n (by decide)), hvalue]

/-- So is its value as a fraction. -/
theorem foldl_padded (hn : n < 10 ^ (width + 1)) :
    (padded (width + 1) n).foldl (fun k c => 10 * k + (c.toNat - '0'.toNat)) 0 = n := by
  have hvalue : ∀ d < 10, d.digitChar.toNat - '0'.toNat = d := by decide
  induction width generalizing n with
  | zero => simpa [padded_one hn] using hvalue n hn
  | succ width ih =>
    have hfront : n / 10 < 10 ^ (width + 1) := by
      rw [Nat.div_lt_iff_lt_mul (by decide), ← Nat.pow_succ]
      exact hn
    rw [padded_succ, List.foldl_append, ih hfront]
    simp only [List.foldl_cons, List.foldl_nil, hvalue _ (Nat.mod_lt n (by decide))]
    exact Nat.div_add_mod n 10

end Digits

/-! ## Dates and times of day -/

theorem monthLength_le (year month : Nat) : Date.monthLength year month ≤ 31 := by
  unfold Date.monthLength
  split
  · split <;> omega
  · split <;> omega

/-- A date that exists is read back. -/
theorem date?_padded {d : Date} (hd : d.isWellFormed = true) (rest : List Char) :
    date? (padded 4 d.year ++ '-' :: (padded 2 d.month ++ '-' :: (padded 2 d.day ++ rest))) =
      some (d, rest) := by
  rcases Date.isWellFormed_iff.1 hd with ⟨hyear, -, hmonth, -, hday⟩
  have hlength := monthLength_le d.year d.month
  have hy : d.year < 10 ^ 4 := by omega
  have hm : d.month < 10 ^ 2 := by omega
  have hdd : d.day < 10 ^ 2 := by omega
  simp [date?, digits?_padded hy, digits?_padded hm, digits?_padded hdd, expect?, hd]

/-- What may follow a time of day: no digit, and no mark of a fraction. -/
def EndsTime (s : List Char) : Prop := ∀ c ∈ s.head?, c.isDigit = false ∧ c ≠ '.' ∧ c ≠ ','

/-- The fraction of a second, which is left out when it is zero. -/
def fractionText (micros : Nat) : List Char := if micros = 0 then [] else '.' :: padded 6 micros

theorem fraction?_fractionText {micros : Nat} (hmicros : micros < 10 ^ 6) {rest : List Char}
    (hrest : EndsTime rest) : fraction? (fractionText micros ++ rest) = some (micros, rest) := by
  unfold fractionText
  by_cases hzero : micros = 0
  · rw [if_pos hzero, hzero, List.nil_append]
    cases rest with
    | nil => rfl
    | cons c rest =>
      rcases hrest c rfl with ⟨-, hpoint, hcomma⟩
      unfold fraction?
      split
      · simp_all
      · simp_all
      · rfl
  · have htake : rest.takeWhile Char.isDigit = [] ∧ rest.dropWhile Char.isDigit = rest := by
      cases rest with
      | nil => exact ⟨rfl, rfl⟩
      | cons c rest => simp [(hrest c rfl).1]
    have hdigits : ∀ c ∈ padded 6 micros, c.isDigit = true := fun c => isDigit_of_mem_padded
    have hlength : (padded 6 micros).length = 6 := length_padded hmicros
    have hsix : (padded 6 micros ++ List.replicate 6 '0').take 6 = padded 6 micros :=
      List.take_left' hlength
    have hempty : (padded 6 micros).isEmpty = false := by
      rw [List.isEmpty_eq_false_iff_exists_mem]
      exact List.exists_mem_of_length_pos (by omega)
    have hvalue : (padded 6 micros).foldl (fun k c => 10 * k + (c.toNat - '0'.toNat)) 0 = micros :=
      foldl_padded hmicros
    rw [if_neg hzero, List.cons_append, fraction?]
    simp only [List.takeWhile_append_of_pos hdigits, List.dropWhile_append_of_pos hdigits, htake.1,
      htake.2, List.append_nil, hsix, hvalue, hempty, Bool.false_eq_true, if_false]

/-- A time of day is read back. -/
theorem time?_padded {hour minute second micros : Nat} (hhour : hour < 24) (hminute : minute < 60)
    (hsecond : second < 60) (hmicros : micros < 10 ^ 6) {rest : List Char} (hrest : EndsTime rest) :
    time? (padded 2 hour ++ ':' :: (padded 2 minute ++ ':' :: (padded 2 second ++
      (fractionText micros ++ rest)))) =
        some (((hour * 60 + minute) * 60 + second) * 1000000 + micros, rest) := by
  have hh : hour < 10 ^ 2 := by omega
  have hm : minute < 10 ^ 2 := by omega
  have hs : second < 10 ^ 2 := by omega
  simp [time?, digits?_padded hh, digits?_padded hm, digits?_padded hs, expect?,
    fraction?_fractionText hmicros hrest, hhour, hminute, hsecond]

/-! ## Distances from universal time -/

/-- Distances of whole minutes, of less than a day. -/
def IsOffset (offset : Int) : Prop := offset % 60 = 0 ∧ offset.natAbs < 86400

theorem endsTime_offsetText (offset : Int) : EndsTime (offsetText ['Z'] offset) := by
  unfold offsetText EndsTime
  split
  · simp
  · split <;> simp

/-- A sign and hours and minutes are read as a distance. -/
theorem offset?_signed (seconds : Bool) {sign : Char} {negative : Bool}
    (hsign : sign = if negative then '-' else '+') {hour minute : Nat} (hhour : hour < 24)
    (hminute : minute < 60) :
    offset? seconds (sign :: (padded 2 hour ++ ':' :: padded 2 minute)) =
      some (some (Text.signed negative ((hour * 60 + minute) * 60))) := by
  have hh : hour < 10 ^ 2 := by omega
  have hm : minute < 10 ^ 2 := by omega
  have hend : digits? 2 (padded 2 minute) = some (minute, []) := by
    simpa using digits?_padded hm []
  cases negative <;> subst hsign <;>
    simp [offset?, digits?_padded hh, hend, expect?, offsetSeconds?, hhour, hminute]

/-- A distance of whole minutes is read back, whether or not seconds are allowed. -/
theorem offset?_offsetText (seconds : Bool) {offset : Int} (h : IsOffset offset) :
    offset? seconds (offsetText ['Z'] offset) = some (some offset) := by
  rcases h with ⟨hminutes, hday⟩
  unfold offsetText
  by_cases hzero : offset = 0
  · rw [if_pos hzero, hzero]
    rfl
  · have hseconds : offset.natAbs % 60 = 0 := by omega
    have hvalue : (offset.natAbs / 3600 * 60 + offset.natAbs / 60 % 60) * 60 = offset.natAbs := by omega
    have hsign : (if offset < 0 then '-' else '+') = if decide (offset < 0) then '-' else '+' := by simp
    have hhour : offset.natAbs / 3600 < 24 := by omega
    have hminute : offset.natAbs / 60 % 60 < 60 := by omega
    have hsigned := offset?_signed seconds hsign hhour hminute
    rw [hvalue, Text.signed_natAbs] at hsigned
    simpa [hzero, hseconds] using hsigned

/-! ## Moments -/

/-- A moment in the years 1 to 9999 whose distance from universal time, if known, is of whole
minutes. -/
structure Writable (m : Moment) : Prop where
  possible : m.isPossible = true
  isOffset : ∀ offset, m.offset = some offset → IsOffset offset

variable {m : Moment}

theorem isPossible_iff : m.isPossible = true ↔ 0 ≤ m.wall ∧ m.wall < wallLimit := by
  simp [isPossible]

theorem Writable.inUtc (h : m.Writable) : m.inUtc.Writable where
  possible := h.possible
  isOffset offset hoffset := by
    cases hm : m.offset with
    | none =>
      have hzero : 0 = offset := by simpa [Moment.inUtc, hm] using hoffset
      rw [← hzero]
      exact ⟨rfl, by decide⟩
    | some o =>
      have hsame : o = offset := by simpa [Moment.inUtc, hm] using hoffset
      exact h.isOffset offset (hm.trans (congrArg some hsame))

/-- The written form of a distance that may be unknown. -/
def distanceText (offset : Option Int) : List Char := offset.elim [] (offsetText ['Z'])

theorem render_eq (m : Moment) : render "Z" m = String.ofList (
    padded 4 (Date.ofDayNumber (m.wall / day).toNat).year ++
    '-' :: padded 2 (Date.ofDayNumber (m.wall / day).toNat).month ++
    '-' :: padded 2 (Date.ofDayNumber (m.wall / day).toNat).day ++
    'T' :: padded 2 ((m.wall % day).toNat / 1000000 / 3600) ++
    ':' :: padded 2 ((m.wall % day).toNat / 1000000 / 60 % 60) ++
    ':' :: padded 2 ((m.wall % day).toNat / 1000000 % 60) ++
    fractionText ((m.wall % day).toNat % 1000000) ++ distanceText m.offset) := by
  rcases m with ⟨wall, _ | offset⟩ <;> rfl

/-- A reader takes the parts from the front. -/
theorem parts_assoc (date : Date) (micros : Nat) (offset : List Char) :
    padded 4 date.year ++ '-' :: padded 2 date.month ++ '-' :: padded 2 date.day ++
      'T' :: padded 2 (micros / 1000000 / 3600) ++ ':' :: padded 2 (micros / 1000000 / 60 % 60) ++
      ':' :: padded 2 (micros / 1000000 % 60) ++ fractionText (micros % 1000000) ++ offset =
    padded 4 date.year ++ '-' :: (padded 2 date.month ++ '-' :: (padded 2 date.day ++
      'T' :: (padded 2 (micros / 1000000 / 3600) ++ ':' :: (padded 2 (micros / 1000000 / 60 % 60) ++
        ':' :: (padded 2 (micros / 1000000 % 60) ++ (fractionText (micros % 1000000) ++
          offset)))))) := by
  simp only [List.append_assoc, List.cons_append]

/-- The parts of a written moment, in the order in which they are read. -/
theorem render_toList (m : Moment) :
    let date := Date.ofDayNumber (m.wall / day).toNat
    let micros := (m.wall % day).toNat
    (render "Z" m).toList =
      padded 4 date.year ++ '-' :: (padded 2 date.month ++ '-' :: (padded 2 date.day ++
        'T' :: (padded 2 (micros / 1000000 / 3600) ++ ':' :: (padded 2 (micros / 1000000 / 60 % 60) ++
          ':' :: (padded 2 (micros / 1000000 % 60) ++ (fractionText (micros % 1000000) ++
            distanceText m.offset)))))) := by
  intro date micros
  rw [render_eq, String.toList_ofList]
  exact parts_assoc date micros (distanceText m.offset)

/-- The microseconds of a day are read back from hours, minutes, seconds and a fraction. -/
theorem time?_micros {micros : Nat} (hmicros : micros < 86400000000) {rest : List Char}
    (hrest : EndsTime rest) :
    time? (padded 2 (micros / 1000000 / 3600) ++ ':' :: (padded 2 (micros / 1000000 / 60 % 60) ++
      ':' :: (padded 2 (micros / 1000000 % 60) ++ (fractionText (micros % 1000000) ++ rest)))) =
        some (micros, rest) := by
  have hhour : micros / 1000000 / 3600 < 24 := by omega
  have hminute : micros / 1000000 / 60 % 60 < 60 := by omega
  have hsecond : micros / 1000000 % 60 < 60 := by omega
  have hfraction : micros % 1000000 < 10 ^ 6 := by omega
  have hsum : ((micros / 1000000 / 3600 * 60 + micros / 1000000 / 60 % 60) * 60 +
      micros / 1000000 % 60) * 1000000 + micros % 1000000 = micros := by omega
  rw [time?_padded hhour hminute hsecond hfraction hrest, hsum]

/-- The midnight of a day's date is where the day begins. -/
theorem midnight_ofDayNumber (n : Nat) : midnight (Date.ofDayNumber n) = n * day := by
  have hyear : (Date.ofDayNumber n).year ≠ 0 := Nat.ne_of_gt (Date.yearOf_pos n)
  simp [midnight, hyear, Date.dayNumber_ofDayNumber]

theorem endsTime_distanceText (offset : Option Int) : EndsTime (distanceText offset) := by
  cases offset with
  | none => simp [distanceText, EndsTime]
  | some o => exact endsTime_offsetText o

theorem Writable.offset?_distanceText (seconds : Bool) (h : m.Writable) :
    offset? seconds (distanceText m.offset) = some m.offset := by
  cases hm : m.offset with
  | none => rfl
  | some offset => exact offset?_offsetText seconds (h.isOffset offset hm)

/-- A moment is read from its written form. -/
theorem read?_render (seconds : Bool) (h : m.Writable) :
    read? seconds (render "Z" m).toList = some m := by
  have hwall : 0 ≤ m.wall ∧ m.wall < 3652059 * day := isPossible_iff.1 h.possible
  have hpos : 0 < day := by decide
  have hquotient : 0 ≤ m.wall / day := Int.ediv_nonneg hwall.1 (by decide)
  have hremainder : 0 ≤ m.wall % day := Int.emod_nonneg _ (by decide)
  have hdays : (m.wall / day).toNat < 3652059 := by
    have hlt : m.wall / day < 3652059 := Int.ediv_lt_of_lt_mul hpos hwall.2
    omega
  have hmicros : (m.wall % day).toNat < 86400000000 := by
    have hlt : m.wall % day < 86400000000 := Int.emod_lt_of_pos _ hpos
    omega
  have hdate := date?_padded (Date.isWellFormed_ofDayNumber hdays)
  have htime := time?_micros hmicros (endsTime_distanceText m.offset)
  have hoffset := h.offset?_distanceText seconds
  have hwhole : midnight (Date.ofDayNumber (m.wall / day).toNat) + ((m.wall % day).toNat : Int) =
      m.wall := by
    rw [midnight_ofDayNumber, Int.toNat_of_nonneg hquotient, Int.toNat_of_nonneg hremainder]
    exact Int.ediv_mul_add_emod m.wall day
  rw [render_toList, read?, hdate]
  simp only [Option.bind_eq_bind, Option.bind_some, expect?, isSeparator, htime, hoffset, hwhole,
    Option.pure_def, decide_true, Bool.true_or, if_true]

/-! ## Moments of event data -/

theorem isOffset_of_offset? {s : List Char} {offset : Int} (h : offset? false s = some (some offset)) :
    IsOffset offset := by
  unfold offset? at h
  split at h
  · exact absurd h (by simp)
  · rw [← Option.some.inj (Option.some.inj h)]
    exact ⟨rfl, by decide⟩
  · rw [← Option.some.inj (Option.some.inj h)]
    exact ⟨rfl, by decide⟩
  · simp only [Option.bind_eq_bind, Option.bind_eq_some_iff] at h
    rcases h with ⟨negative, -, ⟨hour, s⟩, -, ⟨minute, s'⟩, -, ⟨sec, rest⟩, hsec, h⟩
    have hzero : sec = 0 := by
      unfold offsetSeconds? at hsec
      split at hsec
      · exact absurd hsec (by simp)
      · simpa [eq_comm] using congrArg (Option.map Prod.fst) hsec
    split at h
    next hbounds =>
      rw [← Option.some.inj (Option.some.inj h), hzero, Nat.add_zero]
      unfold IsOffset Text.signed
      split <;> omega
    · exact absurd h (by simp)

theorem isOffset_of_read? {s : List Char} (h : read? false s = some m) :
    ∀ offset, m.offset = some offset → IsOffset offset := by
  simp only [read?, Option.bind_eq_bind, Option.bind_eq_some_iff, Option.pure_def,
    Option.some.injEq] at h
  rcases h with ⟨date, -, rest, -, time, -, found, hfound, rfl⟩
  rintro offset rfl
  exact isOffset_of_offset? hfound

theorem offset_of_ofEpoch? {micros : Int} (h : ofEpoch? micros = some m) : m.offset = some 0 := by
  simp only [ofEpoch?] at h
  split at h
  · rw [← Option.some.inj h]
  · exact absurd h (by simp)

theorem offset_of_ofTimestamp? {whole : Int} (h : ofTimestamp? whole = some m) : m.offset = some 0 :=
  offset_of_ofEpoch? h

theorem offset_of_ofDouble? {x : Binary64} (h : ofDouble? x = some m) : m.offset = some 0 := by
  simp only [ofDouble?, Option.bind_eq_bind, Option.bind_eq_some_iff] at h
  rcases h with ⟨whole, -, micros, -, h⟩
  exact offset_of_ofEpoch? h

theorem offset_of_timestampText? {s : List Char} (h : timestampText? s = some m) :
    m.offset = some 0 := by
  simp only [timestampText?] at h
  split at h
  · split at h
    · exact absurd h (by simp)
    · exact offset_of_ofTimestamp? h
  · rcases Option.bind_eq_some_iff.1 h with ⟨x, -, h⟩
    exact offset_of_ofDouble? h
  · exact absurd h (by simp)

theorem offset_of_bareDate? {s : List Char} (h : bareDate? s = some m) : m.offset = none := by
  simp only [bareDate?, Option.bind_eq_bind, Option.bind_eq_some_iff] at h
  rcases h with ⟨date, -, h⟩
  split at h
  · rw [← Option.some.inj h]
  · exact absurd h (by simp)

theorem possible_eq_ok {failure : Misfit} {found : Option Moment} (h : possible failure found = .ok m) :
    found = some m ∧ m.isPossible = true := by
  cases found with
  | none => exact absurd h (by simp [possible])
  | some n =>
    rw [possible] at h
    split at h
    next hpossible =>
      rw [← Except.ok.inj h]
      exact ⟨rfl, hpossible⟩
    · exact absurd h (by simp)

/-- Moments of event data can be written. -/
theorem writable_of_ofJson? {v : Json} (h : ofJson? v = .ok m) : m.Writable := by
  have hzero : m.offset = some 0 → ∀ offset, m.offset = some offset → IsOffset offset := by
    intro hm offset hoffset
    rw [hm, Option.some.injEq] at hoffset
    rw [← hoffset]
    exact ⟨rfl, by decide⟩
  cases v with
  | text s =>
    rw [ofJson?] at h
    rcases possible_eq_ok h with ⟨hfound, hpossible⟩
    refine ⟨hpossible, ?_⟩
    rcases Option.or_eq_some_iff.1 hfound with hread | ⟨-, hfound⟩
    · exact isOffset_of_read? hread
    · rcases Option.or_eq_some_iff.1 hfound with hstamp | ⟨-, hbare⟩
      · exact hzero (offset_of_timestampText? hstamp)
      · intro offset hoffset
        rw [offset_of_bareDate? hbare] at hoffset
        exact absurd hoffset (by simp)
  | int n =>
    rw [ofJson?] at h
    rcases possible_eq_ok h with ⟨hfound, hpossible⟩
    exact ⟨hpossible, hzero (offset_of_ofTimestamp? hfound)⟩
  | float x =>
    rw [ofJson?] at h
    rcases possible_eq_ok h with ⟨hfound, hpossible⟩
    exact ⟨hpossible, hzero (offset_of_ofDouble? hfound)⟩
  | _ => exact absurd h (by simp [ofJson?])

end PuzzleContest.Moment
