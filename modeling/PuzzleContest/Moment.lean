import PuzzleContest.Calendar

/-!
# Moments

A moment is a reading of a wall clock to the microsecond, in the years 1 to 9999, with the distance
of that clock from universal time if it is known.  The distance is fixed, and a whole number of
seconds: there are neither named time zones, whose distance depends on the time of the year, nor
distances with a fraction of a second.  A reading of unknown distance counts as universal time.
Moments are compared by the instant they denote.

Main definitions:

- `Moment.instant`: the microseconds since the start of year 1, in universal time.
- `Moment.inUtc`: a moment with its distance made explicit.
- `Moment.shift?`: a later or earlier reading of the same clock, if there is one.
-/

namespace PuzzleContest

/-- The reading of a clock that keeps a fixed distance of whole seconds from universal time. -/
structure Moment where
  /-- Microseconds since the start of year 1, as the clock on the wall shows. -/
  wall : Int
  /-- The seconds by which the clock is ahead of universal time, if known. -/
  offset : Option Int := none
deriving DecidableEq, Repr

namespace Moment

/-- Microseconds in a second. -/
def second : Int := 1000000

/-- Microseconds in a day. -/
def day : Int := 86400 * second

/-- The first reading past the year 9999. -/
def wallLimit : Int := 3652059 * day

/-- Midnight of 1 January 1970, from which timestamps count. -/
def epoch : Int := 719162 * day

/-- The microseconds since the start of year 1 in universal time. -/
def instant (m : Moment) : Int := m.wall - second * m.offset.getD 0

/-- The same reading with its distance made explicit: universal time where it was unknown. -/
def inUtc (m : Moment) : Moment := { m with offset := some (m.offset.getD 0) }

/-- The microseconds from one moment to another. -/
def since (later earlier : Moment) : Int := later.instant - earlier.instant

/-- Whether the clock's reading lies in the years 1 to 9999. -/
def isPossible (m : Moment) : Bool := 0 ≤ m.wall && m.wall < wallLimit

/-- The reading so many microseconds later; `none` outside of the years 1 to 9999. -/
def shift? (m : Moment) (micros : Int) : Option Moment :=
  let wall := m.wall + micros
  if 0 ≤ wall ∧ wall < wallLimit then some { m with wall } else none

@[simp] theorem instant_inUtc (m : Moment) : m.inUtc.instant = m.instant := rfl

theorem inUtc_of_offset {m : Moment} {o : Int} (h : m.offset = some o) : m.inUtc = m := by
  cases m; simp_all [inUtc]

@[simp] theorem inUtc_inUtc (m : Moment) : m.inUtc.inUtc = m.inUtc := rfl

/-- A shifted clock shows an instant shifted by as much. -/
theorem instant_shift? {m n : Moment} {micros : Int} (h : m.shift? micros = some n) :
    n.instant = m.instant + micros := by
  simp only [shift?] at h
  split at h
  · simp only [Option.some.injEq] at h
    subst h
    simp only [instant]
    omega
  · simp at h

end Moment

end PuzzleContest
