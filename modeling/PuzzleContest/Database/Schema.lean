/-!
# Schemas of a database

A schema is a list of tables with their constraints and indexes.  It changes by operations that make
or drop a table or an index.

Main definitions:

- `Table`, `Index`, `Schema`: what a database is made of.
- `Operation.apply`: a change of a schema.
-/

namespace PuzzleContest.Database

/-- The type of a column. -/
inductive ColumnType where
  | varchar (length : Nat)
  | integer
  | boolean
  | datetime
  | numeric (precision scale : Nat)
deriving DecidableEq, Repr

/-- How a type is written. -/
def ColumnType.sql : ColumnType → String
  | varchar length => "VARCHAR(" ++ toString length ++ ")"
  | integer => "INTEGER"
  | boolean => "BOOLEAN"
  | datetime => "DATETIME"
  | numeric precision scale => "NUMERIC(" ++ toString precision ++ ", " ++ toString scale ++ ")"

/-- A column. -/
structure Column where
  name : String
  type : ColumnType
  nullable : Bool := false
deriving DecidableEq, Repr

/-- A reference of columns to another table, and what happens when its row is deleted. -/
structure ForeignKey where
  columns : List String
  table : String
  onDelete : Option String := none
deriving DecidableEq, Repr

/-- A table with its constraints. -/
structure Table where
  name : String
  columns : List Column
  primaryKey : List String
  unique : List (List String) := []
  foreignKeys : List ForeignKey := []
deriving DecidableEq, Repr

/-- An index on columns of a table. -/
structure Index where
  name : String
  table : String
  columns : List String
  unique : Bool := false
deriving DecidableEq, Repr

/-- The tables and indexes of a database. -/
structure Schema where
  tables : List Table := []
  indexes : List Index := []
deriving DecidableEq, Repr

/-- A change of a schema. -/
inductive Operation where
  | createTable (t : Table)
  | createIndex (i : Index)
  | dropTable (name : String)
  | dropIndex (name : String)
deriving DecidableEq, Repr

/-- Change a schema; a dropped table takes its indexes along. -/
def Operation.apply (s : Schema) : Operation → Schema
  | createTable t => { s with tables := s.tables ++ [t] }
  | createIndex i => { s with indexes := s.indexes ++ [i] }
  | dropTable name =>
    { tables := s.tables.filter fun t => t.name ≠ name
      indexes := s.indexes.filter fun i => i.table ≠ name }
  | dropIndex name => { s with indexes := s.indexes.filter fun i => i.name ≠ name }

namespace Schema

/-- Change a schema by some operations in order. -/
def applyAll (s : Schema) (operations : List Operation) : Schema :=
  operations.foldl Operation.apply s

/-- Lists of texts in the order of a dictionary. -/
def listedBefore : List String → List String → Bool
  | [], _ => true
  | _ :: _, [] => false
  | a :: as, b :: bs => if a = b then listedBefore as bs else a ≤ b

/-- The names of the tables, sorted. -/
def tableNames (s : Schema) : List String := (s.tables.map (·.name)).mergeSort fun a b => a ≤ b

/-- The table of a name. -/
def table? (s : Schema) (name : String) : Option Table := s.tables.find? fun t => t.name = name

/-- The indexes on a table, sorted by name. -/
def indexesOn (s : Schema) (table : String) : List Index :=
  (s.indexes.filter fun i => i.table = table).mergeSort fun a b => a.name ≤ b.name

end Schema

namespace Table

/-- The unique constraints, sorted. -/
def sortedUnique (t : Table) : List (List String) := t.unique.mergeSort Schema.listedBefore

/-- The foreign keys, sorted by their columns. -/
def sortedForeignKeys (t : Table) : List ForeignKey :=
  t.foreignKeys.mergeSort fun a b => Schema.listedBefore a.columns b.columns

end Table

end PuzzleContest.Database
