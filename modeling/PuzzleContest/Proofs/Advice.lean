import PuzzleContest.Proofs.Cooldown
import PuzzleContest.Proofs.Minutes
import PuzzleContest.Proofs.Season
import PuzzleContest.Proofs.Undisturbed

/-!
# What the advice of a shut gate is worth

Whoever answers during a cooldown is refused, and told how many seconds to wait.  What is left of the
cooldown is told in seconds and cut to whole ones.  So unless whole seconds are left, whoever waits as
advised comes back to a gate that is still shut, for less than a second; one second more is enough.

Main definitions:

- `Cooldown.Advises`: what the advised seconds are worth.
- `Attempt.Reaches`: an answer comes to the gate of a cooldown.

Main results:

- `Refusal.waitSeconds_of_lt`, `Refusal.waitSeconds_cases`: how many seconds are advised.
- `Attempt.play_of_reaches`: an answer before a shut gate is refused with what is left.
- `Cooldown.advises_of_blocked`: what the advice is worth, for all tries, plans and times.
- `Cooldown.not_forall_advice_enough`: it is not always enough.
-/

namespace PuzzleContest

/-! ## The advised seconds -/

namespace Refusal

variable {remaining : Int}

theorem waitSeconds_of_nonneg (h : 0 ≤ remaining) : waitSeconds remaining =
    (Score.secondUnits remaining.toNat / (1 * Binary64.one) : Nat) := by
  have hsign : decide (remaining < 0) = false := decide_eq_false (Int.not_lt.2 h)
  have habs : remaining.natAbs = remaining.toNat := by omega
  rw [waitSeconds, hsign, habs, Nat.one_mul]
  rfl

/-- Below `2 ^ 34` seconds what is left is cut to whole seconds. -/
theorem waitSeconds_of_lt (h : 0 ≤ remaining) (hlt : remaining < Binary64.twoTo 34 * Moment.second) :
    waitSeconds remaining = remaining / Moment.second := by
  rw [waitSeconds_of_nonneg h,
    Score.secondUnits_div_of_lt Nat.one_pos (Score.toNat_lt_of_lt hlt)]
  simp only [Moment.second]
  omega

/-- Beyond, it may be one second more. -/
theorem waitSeconds_cases (h : 0 ≤ remaining) (hlt : remaining < Binary64.twoTo 53 * Moment.second) :
    waitSeconds remaining = remaining / Moment.second ∨
      waitSeconds remaining = remaining / Moment.second + 1 := by
  have hcases := Score.secondUnits_div_cases Nat.one_pos (Score.toNat_lt_of_lt hlt)
  rw [waitSeconds_of_nonneg h]
  simp only [Moment.second]
  omega

end Refusal

/-! ## What is left of a cooldown -/

/-- Shifted clocks are as far from universal time as before. -/
theorem Moment.OnCalendar.shift? {m n : Moment} {micros : Int} (h : m.OnCalendar)
    (hshift : m.shift? micros = some n) : n.OnCalendar := by
  unfold Moment.shift? at hshift
  dsimp only at hshift
  split at hshift
  · rename_i hbounds
    rw [Option.some.injEq] at hshift
    rw [← hshift]
    exact ⟨by simpa [Moment.isPossible] using hbounds, h.offset_lt⟩
  · exact absurd hshift (by simp)

namespace Cooldown

variable {plan : Plan} {attempts remaining : Int} {lastMove : Option Moment} {now : Moment}

/-- What is left of a cooldown is positive, and less than the calendar and the days around it. -/
theorem remaining_bounds (hnow : now.OnCalendar)
    (hlast : ∀ last, lastMove = some last → last.OnCalendar)
    (h : gate plan attempts lastMove now = some (.blocked remaining)) :
    0 < remaining ∧ remaining < Binary64.twoTo 53 * Moment.second := by
  obtain ⟨last, cooldown, stop, hmove, -, hstop, hbefore, rfl⟩ := gate_eq_blocked_iff.1 h
  exact ⟨Int.sub_pos_of_lt hbefore, hnow.since_lt ((hlast last hmove).shift? hstop)⟩

/-! ## The advice -/

/-- What the seconds are worth that are advised when so many microseconds are left. -/
structure Advises (plan : Plan) (attempts : Int) (lastMove : Option Moment) (now : Moment)
    (remaining : Int) : Prop where
  /-- The wait that is advised is not negative, and less than a second too short. -/
  nearly : 0 ≤ Refusal.waitSeconds remaining ∧
    remaining < (Refusal.waitSeconds remaining + 1) * Moment.second
  /-- Whoever waits as advised finds the gate shut by what the advice falls short, if it does. -/
  after : ∀ later : Moment,
    later.instant = now.instant + Refusal.waitSeconds remaining * Moment.second →
      gate plan attempts lastMove later =
        some (if Refusal.waitSeconds remaining * Moment.second < remaining then
          .blocked (remaining - Refusal.waitSeconds remaining * Moment.second) else .clear)
  /-- Below `2 ^ 34` seconds the advice is enough exactly when whole seconds are left. -/
  whole : remaining < Binary64.twoTo 34 * Moment.second →
    (remaining ≤ Refusal.waitSeconds remaining * Moment.second ↔ Moment.second ∣ remaining)
  /-- Whoever waits one second more finds the gate open. -/
  more : ∀ later : Moment,
    later.instant = now.instant + (Refusal.waitSeconds remaining + 1) * Moment.second →
      gate plan attempts lastMove later = some .clear

end Cooldown

/-! ## Answers at a shut gate -/

namespace Attempt

/-- An answer comes to the gate of a cooldown, where it finds a try: nothing is wrong with the storage,
its step and its index are in order, and there are its puzzle, its competition and its try. -/
structure Reaches (a : Attempt) (c : Contest) (t : Try Nat) : Prop where
  schedule_eq : c.schedule = {}
  step : a.step = firstStep ∨ a.step = lastStep
  index : Store.holds a.index = true
  previous : Store.holds (a.index - 1) = true
  visible : c.store.unlocks a.competition a.player a.index = true
  competition : ∃ x, c.directory.competition? a.competition = some x
  found : c.store.find? a.key = some t

variable {a : Attempt} {c : Contest} {t : Try Nat} {remaining : Int}

/-- An answer before a shut gate is refused with what is left, and changes nothing. -/
theorem play_of_reaches (me : Holder) (h : a.Reaches c t) (hopen : t.isFinished = false)
    (hblocked : Cooldown.gate c.plan t.attempts t.lastMove c.now = some (.blocked remaining)) :
    a.play me c = (.error (.refused (.rateLimited remaining)), c) := by
  obtain ⟨x, hx⟩ := h.competition
  have hstep : checkStep a.step c = (.ok (), c) := by simp [checkStep, h.step, Action.pure_apply]
  have hvisible := Contest.ensureVisible_of_unlocks h.schedule_eq h.previous h.visible
  have hfind := Contest.findCompetition_of_competition? h.schedule_eq hx
  have hseek : Contest.seekTry a.key c = (.ok (), c) := by
    have hkey : a.key.step = a.step := rfl
    simp [Contest.seekTry, Action.bind_apply, hkey, hstep, Contest.seek_of_schedule h.schedule_eq]
  have hconsult : a.consult c = (.error (.refused (.rateLimited remaining)), c) := by
    have hindex : Store.holds a.key.index = true := h.index
    simp [consult, Action.bind_apply, Contest.demandTry_apply, hindex, h.found, checkTry, hopen,
      hblocked]
  simp [play, gate, Action.bind_apply, hstep, hvisible, hfind, hseek, hconsult]

end Attempt

namespace Cooldown

variable {plan : Plan} {attempts remaining : Int} {lastMove : Option Moment} {now : Moment}

/-- What the advice of a shut gate is worth. -/
theorem advises_of_bounds (hpos : 0 < remaining) (hlt : remaining < Binary64.twoTo 53 * Moment.second)
    (h : gate plan attempts lastMove now = some (.blocked remaining)) :
    Advises plan attempts lastMove now remaining := by
  have hcases := Refusal.waitSeconds_cases (Int.le_of_lt hpos) hlt
  have hnearly : 0 ≤ Refusal.waitSeconds remaining ∧
      remaining < (Refusal.waitSeconds remaining + 1) * Moment.second := by
    simp only [Moment.second] at hcases ⊢
    omega
  constructor
  case nearly => exact hnearly
  case after =>
    intro later hlater
    have hle : now.instant ≤ later.instant := by
      simp only [Moment.second] at hlater
      omega
    have hsince : later.since now = Refusal.waitSeconds remaining * Moment.second := by
      unfold Moment.since
      omega
    rw [gate_of_blocked_of_le h hle, hsince, Gate.ofWait]
    simp only [Int.sub_pos]
  case whole =>
    intro hshort
    rw [Refusal.waitSeconds_of_lt (Int.le_of_lt hpos) hshort]
    simp only [Moment.second]
    omega
  case more =>
    intro later hlater
    have hle : now.instant ≤ later.instant := by
      simp only [Moment.second] at hlater
      omega
    rw [gate_of_blocked_of_le h hle, Option.some.injEq, Gate.ofWait_eq_clear_iff]
    unfold Moment.since
    omega

/-- During a cooldown, whoever answers an unfinished try is refused with an advice, and this is what the
advice is worth. -/
theorem advises_of_blocked (c : Contest) (t : Try Nat) {remaining : Int} (hnow : c.now.OnCalendar)
    (hlast : ∀ last, t.lastMove = some last → last.OnCalendar)
    (hblocked : gate c.plan t.attempts t.lastMove c.now = some (.blocked remaining)) :
    Advises c.plan t.attempts t.lastMove c.now remaining ∧
      (Refusal.rateLimited remaining).status = 429 ∧
      (Refusal.rateLimited remaining).body = .object [("error", .text "Rate limit exceeded"),
        ("wait_time_seconds", .int (Refusal.waitSeconds remaining))] ∧
      ∀ (me : Holder) (a : Attempt), a.Reaches c t → t.isFinished = false →
        a.play me c = (.error (.refused (.rateLimited remaining)), c) := by
  obtain ⟨hpos, hlt⟩ := remaining_bounds hnow hlast hblocked
  exact ⟨advises_of_bounds hpos hlt hblocked, rfl, rfl,
    fun me a hreaches hopen => Attempt.play_of_reaches me hreaches hopen hblocked⟩

/-- An answer to the sample puzzle. -/
def hastyAttempt : Attempt := ⟨"cup", "player", "knots", 0, firstStep, "7"⟩

/-- The sample try after three answers. -/
def hastyTry : Try Nat where
  id := 0
  key := hastyAttempt.key
  level := "EASY"
  start := Contest.sample.now
  attempts := 3
  lastAnswer := some "7"
  lastMove := some Contest.sample.now

/-- The sample contest half a second after the third answer. -/
def hastyContest : Contest :=
  { Contest.sample with
    store := { tries := [hastyTry], issued := 1 }
    now := { wall := 63900000000500000, offset := some 0 } }

/-- The wait is 179.5 seconds; 179 are advised, after which half a second is left. -/
theorem advises_of_blocked_sample :
    let later : Moment := ⟨63900000179500000, some 0⟩
    hastyContest.now.OnCalendar ∧ Contest.sample.now.OnCalendar ∧
      gate hastyContest.plan hastyTry.attempts hastyTry.lastMove hastyContest.now =
        some (.blocked 179500000) ∧
      Refusal.waitSeconds 179500000 = 179 ∧
      gate hastyContest.plan hastyTry.attempts hastyTry.lastMove later = some (.blocked 500000) ∧
      hastyAttempt.Reaches hastyContest hastyTry ∧
      hastyAttempt.play (.named "player") hastyContest =
        (.error (.refused (.rateLimited 179500000)), hastyContest) := by
  intro later
  have hnow : hastyContest.now.OnCalendar := by decide
  have hlast : Contest.sample.now.OnCalendar := by decide
  have hblocked : gate hastyContest.plan hastyTry.attempts hastyTry.lastMove hastyContest.now =
      some (.blocked 179500000) := by decide
  have hwait : Refusal.waitSeconds 179500000 = 179 := by decide +kernel
  have hreaches : hastyAttempt.Reaches hastyContest hastyTry :=
    ⟨rfl, .inl rfl, by decide, by decide, by decide, ⟨_, rfl⟩, by decide⟩
  obtain ⟨hadvises, -, -, hplay⟩ := advises_of_blocked hastyContest hastyTry hnow
    (fun last h => Option.some.inj h ▸ hlast) hblocked
  refine ⟨hnow, hlast, hblocked, hwait, ?_, hreaches, hplay _ _ hreaches rfl⟩
  have hafter := hadvises.after later
  rw [hwait] at hafter
  exact hafter (by decide)

/-- The advised wait is not always enough. -/
theorem not_forall_advice_enough : ¬∀ (plan : Plan) (attempts : Int) (last now later : Moment)
    (remaining : Int), last.OnCalendar → now.OnCalendar → later.OnCalendar →
    gate plan attempts (some last) now = some (.blocked remaining) →
      later.instant = now.instant + Refusal.waitSeconds remaining * Moment.second →
        gate plan attempts (some last) later = some .clear := by
  intro h
  have hclear := h {} 3 ⟨0, none⟩ ⟨500000, some 0⟩ ⟨179500000, some 0⟩ 179500000 (by decide)
    (by decide) (by decide) (by decide) (by decide +kernel)
  revert hclear
  decide

end Cooldown

end PuzzleContest
