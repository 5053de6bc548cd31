import QueryAlgebra.Sql.Expression

/-!
# SQL statements

The statements that a table issues, before they are written in a dialect. What a statement does is
read off its constructor; `Statement.render` is the text that a connection is handed.
-/

namespace QueryAlgebra

namespace Sql

/-- A test in the `WHERE` clause of a statement. -/
inductive RowTest where
  /-- A column equals a value. -/
  | equals (column : String) (v : Value)
  /-- A column equals one of several values. -/
  | isIn (column : String) (values : List Value)
  /-- The row, found by its primary key, passes formulas. -/
  | passes (table primaryKey : String) (first : Formula) (others : List Formula)
  /-- A test given as text. -/
  | given (text : String)

/-- A column of a table to create. -/
structure ColumnDef where
  /-- The name of the column. -/
  name : String
  /-- Its declared type. -/
  type : FieldType
  /-- Whether it is the primary key. -/
  isPrimary : Bool
deriving DecidableEq, Repr

/-- A statement. -/
inductive Statement where
  /-- Reads rows: all columns, or those named. -/
  | select (distinct : Bool) (columns : Option (List String)) (table : String)
      (tests : List RowTest) (limit : Option Nat)
  /-- Inserts a row that must not exist. -/
  | insert (table : String) (row : Fields)
  /-- Inserts a row, or updates the row that exists with the fields given. -/
  | upsert (table primaryKey : String) (row : Fields)
  /-- Inserts a row, or overwrites the row that exists. -/
  | replace (table primaryKey : String) (row : Fields) (schemaColumns : List String)
  /-- Sets fields of the rows that pass a test. -/
  | update (table : String) (changes : Fields) (test : RowTest)
  /-- Deletes the rows that pass a test. -/
  | delete (table : String) (test : RowTest)
  /-- Creates a table. -/
  | createTable (table : String) (columns : List ColumnDef)
  /-- Creates an index on a column. -/
  | createIndex (name table column : String)
  /-- Drops a table, if it exists. -/
  | dropTable (table : String)
  /-- Reads the names of all tables. -/
  | listTables

/-- The text of a test. -/
def RowTest.render (d : Dialect) : RowTest → String
  | .equals column v => d.ident column ++ " = " ++ d.comparable v
  | .isIn column values =>
    d.ident column ++ " IN (" ++ Text.joined ", " (values.map d.comparable) ++ ")"
  | .passes table primaryKey first others =>
    d.ident primaryKey ++ " IN (SELECT " ++ d.ident primaryKey ++ " FROM " ++ d.ident table
      ++ " WHERE " ++ first.render d
      ++ String.join (others.map (fun f => " AND (" ++ f.render d ++ ")")) ++ ")"
  | .given text => text

/-- The text of the tests of a statement, nothing when there are none. -/
def whereText (d : Dialect) (tests : List RowTest) : String :=
  if tests.isEmpty then "" else " WHERE " ++ Text.joined " AND " (tests.map (RowTest.render d))

/-- The texts of the values of a row. -/
def valueTexts (d : Dialect) (row : Fields) : List String := row.map (fun f => d.literal f.2)

/-- The text of a column of a table to create. -/
def ColumnDef.render (d : Dialect) (c : ColumnDef) : String :=
  d.ident c.name ++ " " ++ d.columnType c.type ++ (if c.isPrimary then " PRIMARY KEY" else "")

/-- The text of a statement. -/
def Statement.render (d : Dialect) : Statement → String
  | .select distinct columns table tests limit =>
    "SELECT " ++ (if distinct then "DISTINCT " else "")
      ++ (match columns with
        | some names => d.identList names
        | none => "*")
      ++ " FROM " ++ d.ident table ++ whereText d tests
      ++ (match limit with
        | some n => " LIMIT " ++ toString n
        | none => "")
  | .insert table row => d.insertText "INSERT" table row.names (valueTexts d row)
  | .upsert table primaryKey row =>
    d.upsertText table primaryKey row.names (valueTexts d row)
      (Dialect.assigned primaryKey row.names [])
  | .replace table primaryKey row schemaColumns =>
    d.replaceText table primaryKey row.names (valueTexts d row) schemaColumns
  | .update table changes test =>
    "UPDATE " ++ d.ident table ++ " SET "
      ++ Text.joined ", " (changes.map (fun f => d.ident f.1 ++ " = " ++ d.literal f.2))
      ++ " WHERE " ++ test.render d
  | .delete table test => "DELETE FROM " ++ d.ident table ++ " WHERE " ++ test.render d
  | .createTable table columns =>
    "CREATE TABLE " ++ d.ident table ++ " (" ++ Text.joined ", " (columns.map (ColumnDef.render d))
      ++ ")"
  | .createIndex name table column =>
    "CREATE INDEX " ++ d.ident name ++ " ON " ++ d.ident table ++ " (" ++ d.ident column ++ ")"
  | .dropTable table => "DROP TABLE IF EXISTS " ++ d.ident table
  | .listTables => d.listTables

/-- The test that a column has one of several values; none when there are none. -/
def inList (column : String) (values : List Value) : Option RowTest :=
  if values.isEmpty then none else some (.isIn column values)

end Sql

end QueryAlgebra
