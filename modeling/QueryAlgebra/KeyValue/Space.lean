import QueryAlgebra.Value.Rules
import QueryAlgebra.Text.Quoted

/-!
# Places in the store

Every table owns three parts of the store: its documents under their primary keys, its indexes with
the primary keys under every indexed value, and its records. Beside them stands the list of tables.
A part is named by the beginning that its keys share; names may not contain the separator, so no
table's keys begin like another's.
-/

namespace QueryAlgebra

namespace KeyValue

/-- A part of the store. -/
inductive Space where
  /-- All that is stored for a table. -/
  | table (table : String)
  /-- The documents of a table. -/
  | primary (table : String)
  /-- The index of a table on a field. -/
  | index (table field : String)
  /-- The records of a table. -/
  | records (table : String)
  /-- The records of the database. -/
  | database
deriving DecidableEq, Repr

/-- The record that names the indexed fields of a table, the primary key first. -/
def indexListName : String := "__index_list__"

/-- The record that names the tables of the database. -/
def tableListName : String := "__table_list__"

namespace Space

/-- What all keys of the part begin with. -/
def stem : Space → String
  | .table t => "!" ++ t ++ "!"
  | .primary t => "!" ++ t ++ "!p!"
  | .index t field => "!" ++ t ++ "!i!" ++ field ++ "!"
  | .records t => "!" ++ t ++ "!m!"
  | .database => "!!m!"

/-- The key of a record. -/
def named (space : Space) (name : String) : String := space.stem ++ name

/-- The key of a value. -/
def key (space : Space) (v : Value) : String := space.named v.fingerprint

end Space

/-- Refuses a name that is empty or contains the separator. -/
def checkName (kind name : String) : Except Error Unit :=
  if name.isEmpty || name.toList.contains '!' then
    .error (.argument (kind ++ " name must be non-empty and must not contain '!': "
      ++ Text.quoted name))
  else .ok ()

end KeyValue

end QueryAlgebra
