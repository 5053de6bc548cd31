import QueryAlgebra.Schema

/-!
# SQL dialects

The two dialects write statements of the same structure. They differ in how identifiers and texts
are quoted, in truth values, in column types, and in how a column of unknown type is read.

Every value that enters a statement goes through `Dialect.literal`: texts stand between quotes with
inner quotes doubled, arrays and objects are written as JSON text and quoted, numbers stand as they
are. SQLite keeps the type of what is stored in a column for anything, so such a column compares as
it is; Postgres stores it as text, so that it is read through `numericView` and `textView`, and
compared with values that the server may read as text (`comparable`).
-/

namespace QueryAlgebra

namespace Sql

/-- A dialect of SQL. -/
inductive Dialect where
  | sqlite
  | postgres
deriving DecidableEq, Repr, Inhabited

/-! ## 1. Quoting -/

/-- Characters with every quote doubled. -/
def doubleChars (quote : Char) (text : List Char) : List Char :=
  text.flatMap (fun c => if c = quote then [quote, quote] else [c])

/-- A text between quotes, inner quotes doubled. -/
def enclosed (quote : Char) (text : String) : String :=
  String.ofList (quote :: doubleChars quote text.toList ++ [quote])

/-- The character that takes the meaning from a wildcard of a `LIKE` pattern. -/
def likeEscapeChar : Char := '\\'

/-- Whether a character has a meaning of its own in a `LIKE` pattern. -/
def isLikeSpecial (c : Char) : Bool := c == '%' || c == '_' || c == likeEscapeChar

/-- A text as a `LIKE` pattern that matches it literally. -/
def likeEscape (text : String) : String :=
  String.ofList
    (text.toList.flatMap (fun c => if isLikeSpecial c then [likeEscapeChar, c] else [c]))

namespace Dialect

/-- The name of the dialect. -/
def name : Dialect → String
  | .sqlite => "sqlite"
  | .postgres => "postgres"

/-- The quote around identifiers. -/
def identQuote : Dialect → Char
  | .sqlite => '\x60'
  | .postgres => '"'

/-- An identifier: a table, a column, an index. -/
def ident (d : Dialect) (name : String) : String := enclosed d.identQuote name

/-- Identifiers, separated by commas. -/
def identList (d : Dialect) (names : List String) : String := Text.joined ", " (names.map d.ident)

/-- A text literal. Postgres writes a text with a backslash as an escape string. -/
def text (d : Dialect) (s : String) : String :=
  match d with
  | .sqlite => enclosed '\'' s
  | .postgres =>
    if '\\' ∈ s.toList then "E" ++ enclosed '\'' (String.ofList (doubleChars '\\' s.toList))
    else enclosed '\'' s

/-- A truth value. -/
def bool : Dialect → Bool → String
  | .sqlite, true => "1"
  | .sqlite, false => "0"
  | .postgres, true => "TRUE"
  | .postgres, false => "FALSE"

/-- The type of a column of a declared type. -/
def columnType : Dialect → FieldType → String
  | .sqlite, .string | .sqlite, .object => "TEXT"
  | .sqlite, .any => "BLOB"
  | .sqlite, .number => "REAL"
  | .sqlite, .bool => "INTEGER"
  | .postgres, .string | .postgres, .object | .postgres, .any => "TEXT"
  | .postgres, .number => "DOUBLE PRECISION"
  | .postgres, .bool => "BOOLEAN"

/-! ## 2. Values -/

/-- A value as a literal. -/
def literal (d : Dialect) : Value → String
  | .null => "NULL"
  | .bool b => d.bool b
  | .number n => n.text
  | .string s => d.text s
  | v => d.text v.json

/-- A value to compare a column of unknown type with. In Postgres numbers and truth values are
    quoted and take the type of the column. -/
def comparable (d : Dialect) (v : Value) : String :=
  match d, v with
  | .postgres, .bool _ | .postgres, .number _ => d.text v.json
  | _, _ => d.literal v

/-- The texts that Postgres reads as numbers. -/
def numericPattern : String := "^-?[0-9]+([.][0-9]+)?([eE][-+]?[0-9]+)?$"

/-- An expression read as text. -/
def textView (d : Dialect) (e : String) : String :=
  match d with
  | .sqlite => e
  | .postgres => "CAST(" ++ e ++ " AS TEXT)"

/-- An expression read as a number, null where it holds none. -/
def numericView (d : Dialect) (e : String) : String :=
  match d with
  | .sqlite => e
  | .postgres =>
    "CASE WHEN " ++ d.textView e ++ " ~ " ++ d.text numericPattern ++ " THEN CAST(" ++ d.textView e
      ++ " AS DOUBLE PRECISION) END"

/-- The clause that names the escape character of a `LIKE` pattern. -/
def likeEscapeClause (d : Dialect) : String :=
  " ESCAPE " ++ d.text (String.ofList [likeEscapeChar])

/-! ## 3. Inserts -/

/-- The columns that an insert sets on a row that exists: those given, to the new values, and those
    to reset that are not given, to null. The primary key is not set. -/
inductive Assigned where
  /-- Set to the value of the row that could not be inserted. -/
  | excluded (column : String)
  /-- Set to null. -/
  | reset (column : String)
deriving DecidableEq, Repr

/-- What an insert on an existing row assigns. -/
def assigned (primaryKey : String) (columns resetColumns : List String) : List Assigned :=
  (columns.filter (· ≠ primaryKey)).map .excluded
    ++ (resetColumns.filter (fun c => c ≠ primaryKey ∧ c ∉ columns)).map .reset

/-- The text of an assignment. -/
def assignment (d : Dialect) : Assigned → String
  | .excluded c => d.ident c ++ " = excluded." ++ d.ident c
  | .reset c => d.ident c ++ " = NULL"

/-- An insert, by the texts of its values. -/
def insertText (d : Dialect) (verb table : String) (columns values : List String) : String :=
  verb ++ " INTO " ++ d.ident table ++ " (" ++ d.identList columns ++ ") VALUES ("
    ++ Text.joined ", " values ++ ")"

/-- An insert that updates a row that exists. -/
def upsertText (d : Dialect) (table primaryKey : String) (columns values : List String)
    (sets : List Assigned) : String :=
  d.insertText "INSERT" table columns values ++ " ON CONFLICT (" ++ d.ident primaryKey ++ ") "
    ++ (if sets.isEmpty then "DO NOTHING"
      else "DO UPDATE SET " ++ Text.joined ", " (sets.map d.assignment))

/-- An insert that overwrites a row that exists. Columns of the schema that are not given are
    reset. -/
def replaceText (d : Dialect) (table primaryKey : String) (columns values : List String)
    (schemaColumns : List String) : String :=
  match d with
  | .sqlite => d.insertText "INSERT OR REPLACE" table columns values
  | .postgres =>
    d.upsertText table primaryKey columns values (assigned primaryKey columns schemaColumns)

/-- The query for the names of all tables. -/
def listTables : Dialect → String
  | .sqlite => "SELECT name FROM sqlite_master WHERE type = 'table' ORDER BY name"
  | .postgres => "SELECT table_name AS name FROM information_schema.tables "
      ++ "WHERE table_schema = 'public' ORDER BY table_name"

end Dialect

end Sql

end QueryAlgebra
