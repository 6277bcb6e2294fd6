import PuzzleContest.Contest.Play
import PuzzleContest.Form.Scalar

/-!
# The forms of the site

What the two bodies say that the site takes, and how forms read them and the indices in paths.

Main definitions:

- `OpeningForm`, `AttemptForm`: what is said, to be completed by the player.
- `Site.openingForm`, `Site.attemptForm`, `Site.indexParameter`: the forms.
-/

namespace PuzzleContest

/-- What is said to open a puzzle. -/
structure OpeningForm where
  competition : String
  puzzle : String
  index : Int
  level : Json.Spelling
deriving DecidableEq, Repr

/-- What is said to answer a step of a puzzle. -/
structure AttemptForm where
  competition : String
  puzzle : String
  index : Int
  step : Int
  answer : Json.Spelling
deriving DecidableEq, Repr

/-- The opening that a player asks for, with a level that can be stored. -/
def OpeningForm.opening (f : OpeningForm) (player level : String) : Opening :=
  ⟨f.competition, player, f.puzzle, f.index, level⟩

/-- The attempt that a player makes, with an answer that can be sent. -/
def AttemptForm.attempt (f : AttemptForm) (player answer : String) : Attempt :=
  ⟨f.competition, player, f.puzzle, f.index, f.step, answer⟩

namespace Site

/-- The form for opening a puzzle. -/
def openingForm (v : Json) : Checked OpeningForm :=
  Form.object v fun m =>
    OpeningForm.mk <$>
      Form.field m "competition_id" Form.nonemptyText <*>
      Form.field m "puzzle_id" Form.nonemptyText <*>
      Form.field m "puzzle_index" Form.natural <*>
      Form.field m "puzzle_difficulty" Form.text

/-- The form for an answer, which goes by one of two names. -/
def attemptForm (v : Json) : Checked AttemptForm :=
  Form.object v fun m =>
    AttemptForm.mk <$>
      Form.field m "competition_id" Form.nonemptyText <*>
      Form.field m "puzzle_id" Form.nonemptyText <*>
      Form.field m "puzzle_index" Form.natural <*>
      Form.field m "puzzle_step" Form.integer <*>
      Form.fieldAmong m "solution" ["answer"] Form.text

/-- The index in a path. -/
def indexParameter (s : String) : Checked Int :=
  ((Form.integerOfText s.toList).within (.name "puzzle_index")).within (.name "path")

end Site

end PuzzleContest
