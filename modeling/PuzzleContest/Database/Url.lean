/-!
# Addresses of databases

The contest talks to its database through drivers that do not block; migrations use the plain driver
of the same database.

Main definitions:

- `Url.plain`: an address for the plain driver.
- `Url.forMigrations`: where and how migrations are run.
-/

namespace PuzzleContest.Database.Url

/-- The schemes of the drivers that do not block, and the plain ones. -/
def plainSchemes : List (String × String) :=
  [("postgresql+asyncpg://", "postgresql+psycopg2://"), ("sqlite+aiosqlite://", "sqlite://")]

/-- The first scheme that an address starts with is replaced. -/
def plainBy : List (String × String) → List Char → List Char
  | [], url => url
  | (scheme, plainScheme) :: rest, url =>
    if scheme.toList.isPrefixOf url then plainScheme.toList ++ url.drop scheme.length
    else plainBy rest url

/-- An address for the plain driver of its database. -/
def plain (url : String) : String := String.ofList (plainBy plainSchemes url.toList)

/-- Where migrations are run, and whether tables have to be copied to change their constraints. -/
structure Plan where
  url : String
  batch : Bool
deriving DecidableEq, Repr

/-- The first text that is not empty. -/
def firstGiven : List String → String → String
  | [], fallback => fallback
  | s :: rest, fallback => if s = "" then firstGiven rest fallback else s

/-- Migrations are run where their own setting says, else at the contest's database, else at an
address of last resort, which is taken as it is. -/
def forMigrations (migrations database lastResort : String) : Plan :=
  let chosen := firstGiven [migrations, database] ""
  let url := if chosen = "" then lastResort else plain chosen
  ⟨url, "sqlite".toList.isPrefixOf url.toList⟩

end PuzzleContest.Database.Url
