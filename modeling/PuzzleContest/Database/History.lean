import PuzzleContest.Database.Migration

/-!
# The history of the contest's database

One migration makes the tables of players, groups, catalogs, competitions and tries.
-/

namespace PuzzleContest.Database

/-- A required column of texts. -/
def textColumn (name : String) (length : Nat) : Column := ⟨name, .varchar length, false⟩

/-- The column of an id. -/
def idColumn (name : String) : Column := textColumn name 36

/-- The players. -/
def usersTable : Table where
  name := "users"
  columns := [idColumn "id", textColumn "firstname" 50, textColumn "lastname" 50,
    textColumn "email" 255]
  primaryKey := ["id"]

/-- The groups. -/
def groupsTable : Table where
  name := "groups"
  columns := [idColumn "id", textColumn "name" 50, ⟨"description", .varchar 255, true⟩]
  primaryKey := ["id"]

/-- Which players belong to which groups. -/
def membershipsTable : Table where
  name := "user_groups"
  columns := [idColumn "user_id", idColumn "group_id"]
  primaryKey := ["user_id", "group_id"]
  foreignKeys := [⟨["user_id"], "users", some "CASCADE"⟩, ⟨["group_id"], "groups", some "CASCADE"⟩]

/-- The catalogs. -/
def catalogsTable : Table where
  name := "catalogs"
  columns := [idColumn "id", textColumn "name" 100, textColumn "address" 255,
    textColumn "description" 255]
  primaryKey := ["id"]
  unique := [["name"]]

/-- The competitions. -/
def competitionsTable : Table where
  name := "competitions"
  columns := [idColumn "id", textColumn "title" 100, ⟨"description", .varchar 255, true⟩,
    idColumn "catalog_id", textColumn "catalog_theme" 50, ⟨"show", .boolean, false⟩,
    ⟨"finished", .boolean, false⟩]
  primaryKey := ["id"]
  foreignKeys := [⟨["catalog_id"], "catalogs", none⟩]

/-- The tries; there is one at most per player and step of a puzzle in a competition. -/
def triesTable : Table where
  name := "tries"
  columns := [idColumn "id", idColumn "competition_id", idColumn "user_id",
    textColumn "puzzle_id" 255, ⟨"puzzle_index", .integer, false⟩, textColumn "puzzle_lvl" 255,
    ⟨"step", .integer, false⟩, ⟨"start_time", .datetime, false⟩, ⟨"end_time", .datetime, true⟩,
    ⟨"attempts", .integer, false⟩, ⟨"last_answer", .varchar 255, true⟩,
    ⟨"last_move_time", .datetime, true⟩, ⟨"score", .numeric 15 2, false⟩]
  primaryKey := ["id"]
  unique := [["competition_id", "user_id", "puzzle_id", "puzzle_index", "step"]]
  foreignKeys := [⟨["competition_id"], "competitions", some "CASCADE"⟩,
    ⟨["user_id"], "users", none⟩]

/-- The first migration. -/
def initialMigration : Migration where
  revision := "001"
  up := [
    .createTable usersTable,
    .createIndex ⟨"ix_users_email", "users", ["email"], true⟩,
    .createTable groupsTable,
    .createTable membershipsTable,
    .createTable catalogsTable,
    .createTable competitionsTable,
    .createIndex ⟨"ix_competitions_catalog_id", "competitions", ["catalog_id"], false⟩,
    .createTable triesTable,
    .createIndex ⟨"ix_tries_competition_id", "tries", ["competition_id"], false⟩,
    .createIndex ⟨"ix_tries_user_id", "tries", ["user_id"], false⟩]
  down := [
    .dropIndex "ix_tries_user_id",
    .dropIndex "ix_tries_competition_id",
    .dropTable "tries",
    .dropIndex "ix_competitions_catalog_id",
    .dropTable "competitions",
    .dropTable "catalogs",
    .dropTable "user_groups",
    .dropTable "groups",
    .dropIndex "ix_users_email",
    .dropTable "users"]

/-- All migrations. -/
def history : Chain := [initialMigration]

/-- The way down of the first migration undoes its way up. -/
theorem initialMigration_down_up :
    (({} : Schema).applyAll initialMigration.up).applyAll initialMigration.down = {} := by
  decide

end PuzzleContest.Database
