import QueryAlgebra.Proofs.Outcome
import QueryAlgebra.Proofs.Sql.Reading
import QueryAlgebra.Proofs.Value.Documents
import QueryAlgebra.Sql.Connection

/-!
# Relational connections

A server answers a query from the rows of one table, clause by clause: it keeps the rows that pass
the tests, shows their columns, drops what it has shown before when it is told to, and cuts. How it
compares values is left open, as it is for formulas (`Engine`).

* `Server.select`: the rows that a query answers.
* `Server.Answers`: a connection whose queries are answered so, from rows that a query leaves as they
  are. Nothing is assumed of its statements without rows.
* `select_distinct`: where the rows have keys of their own, and the keys are shown, `DISTINCT` drops
  nothing.
-/

namespace QueryAlgebra

namespace Sql

/-- A database server: what it does with values, and how it reads a test given as text. -/
structure Server extends Engine where
  /-- The truth value on a row of a test given as text. -/
  given : String → Fields → Truth

namespace Server

variable (server : Server)

/-! ## 1. Tests -/

/-- Whether two values are equal, unknown when one of them is null. -/
def equals (a b : Value) : Truth := unlessNull server.equal a b

/-- The truth value of a test on a row of a table. -/
def truth (rows : List Fields) (row : Fields) : RowTest → Truth
  | .equals column v => server.equals (columnOf row column) v
  | .isIn column values => Truth.any (values.map (server.equals (columnOf row column)))
  | .passes _ primaryKey first others =>
    let passing := rows.filter fun r =>
      (first :: others).all fun f => f.truth server.toEngine r == some true
    Truth.any (passing.map fun r => server.equals (columnOf row primaryKey) (columnOf r primaryKey))
  | .given text => server.given text row

/-- The rows of a table that pass tests. -/
def passing (rows : List Fields) (tests : List RowTest) : List Fields :=
  rows.filter fun row => tests.all fun test => server.truth rows row test == some true

/-! ## 2. Queries -/

/-- The columns of a row that a query shows: all, or those named. A column that the row does not have
    is null. -/
def shown (columns : Option (List String)) (row : Fields) : Fields :=
  match columns with
  | none => row
  | some names => names.eraseDups.map fun name => (name, columnOf row name)

/-- Whether two values are one to `DISTINCT`: both are null, or they are equal. -/
def same (a b : Value) : Bool := (a.isNull && b.isNull) || server.equals a b == some true

/-- Whether two rows are one to `DISTINCT`, column by column. -/
def sameRow (a b : Fields) : Bool :=
  a.names == b.names && a.names.all fun name => server.same (columnOf a name) (columnOf b name)

/-- The first rows, as many as there may be. -/
def firstRows {α : Type} (limit : Option Nat) (rows : List α) : List α :=
  match limit with
  | none => rows
  | some n => rows.take n

/-- **The rows that a query answers from the rows of a table.** -/
def select (rows : List Fields) (distinct : Bool) (columns : Option (List String))
    (tests : List RowTest) (limit : Option Nat) : List Fields :=
  let answer := (server.passing rows tests).map (shown columns)
  firstRows limit (if distinct then answer.eraseDupsBy server.sameRow else answer)

/-- **What is assumed of a connection:** its queries are answered from the rows that a state holds,
    and leave the state as it is. -/
def Answers {σ : Type} (rows : σ → List Fields) (connection : Connection (Stateful σ)) : Prop :=
  ∀ distinct columns table tests limit s,
    Stateful.on (connection.all (.select distinct columns table tests limit)) s
      = (.ok (server.select (rows s) distinct columns tests limit), s)

/-- The connection to a server that holds the rows of one table, and deletes those that pass a
    test. -/
def connection (primaryKey : String) : Connection (Stateful (List Fields)) where
  first
    | .select distinct columns _ tests limit => do
      return (server.select (← get) distinct columns tests limit).head?
    | _ => pure none
  all
    | .select distinct columns _ tests limit => do
      return server.select (← get) distinct columns tests limit
    | _ => pure []
  exec
    | .delete _ test => do
      let rows ← get
      set (rows.filter fun row => server.truth rows row test != some true)
    | _ => throw (.storage "only rows can be deleted")
  primaryKey _ := pure primaryKey

theorem answers_connection (primaryKey : String) : server.Answers id (server.connection primaryKey) :=
  fun _ _ _ _ _ _ => rfl

/-! ## 3. What is shown -/

variable {server}

theorem firstRows_map {α β : Type} (limit : Option Nat) (f : α → β) (rows : List α) :
    (firstRows limit rows).map f = firstRows limit (rows.map f) := by
  cases limit with
  | none => rfl
  | some n => exact List.map_take

theorem mem_of_mem_firstRows {α : Type} {limit : Option Nat} {rows : List α} {row : α}
    (h : row ∈ firstRows limit rows) : row ∈ rows := by
  cases limit with
  | none => exact h
  | some n => exact List.mem_of_mem_take h

theorem columnOf_map {names : List String} {f : String → Value} {name : String}
    (h : name ∈ names) : columnOf (names.map fun n => (n, f n)) name = f name := by
  induction names with
  | nil => cases h
  | cons n names ih =>
    rw [List.map_cons, columnOf, Fields.get?]
    by_cases hn : n = name
    · rw [if_pos hn, hn]
      rfl
    · rw [if_neg hn]
      exact ih ((List.mem_cons.mp h).resolve_left (Ne.symm hn))

/-- A column that is shown has the value that it has in the row. -/
theorem columnOf_shown {columns : Option (List String)} {name : String}
    (h : ∀ names, columns = some names → name ∈ names) (row : Fields) :
    columnOf (shown columns row) name = columnOf row name := by
  cases columns with
  | none => rfl
  | some names => exact columnOf_map (List.mem_eraseDups.mpr (h names rfl))

theorem columnOf_eq_null {row : Fields} {name : String} (h : name ∉ row.names) :
    columnOf row name = .null := by
  rw [columnOf, Fields.get?_eq_none_of_not_mem h]
  rfl

/-- Rows that are one to `DISTINCT` have one value in every column. -/
theorem same_of_sameRow {a b : Fields} (h : server.sameRow a b = true) (name : String) :
    server.same (columnOf a name) (columnOf b name) = true := by
  obtain ⟨hnames, hcolumns⟩ := Bool.and_eq_true_iff.mp h
  have hnames := eq_of_beq hnames
  by_cases hname : name ∈ a.names
  · exact List.all_eq_true.mp hcolumns name hname
  · rw [columnOf_eq_null hname, columnOf_eq_null (hnames ▸ hname)]
    rfl

theorem mem_of_mem_eraseDupsBy {α : Type} {r : α → α → Bool} {a : α} {items : List α}
    (h : a ∈ items.eraseDupsBy r) : a ∈ items := by
  match items with
  | [] => exact h
  | b :: rest =>
    rw [List.eraseDupsBy_cons] at h
    rcases List.mem_cons.mp h with rfl | hrest
    · exact List.mem_cons_self
    · exact List.mem_cons_of_mem b (List.mem_of_mem_filter (mem_of_mem_eraseDupsBy hrest))
termination_by items.length
decreasing_by exact Nat.lt_succ_of_le (List.length_filter_le _ _)

theorem eraseDupsBy_eq_self {α : Type} {r : α → α → Bool} {items : List α}
    (h : items.Pairwise fun a b => r b a = false) : items.eraseDupsBy r = items := by
  induction items with
  | nil => rfl
  | cons a items ih =>
    obtain ⟨ha, hitems⟩ := List.pairwise_cons.mp h
    have hkept : items.filter (fun b => decide (r b a = false)) = items :=
      List.filter_eq_self.mpr fun b hb => decide_eq_true (ha b hb)
    rw [List.eraseDupsBy_cons, hkept, ih hitems]

/-- A query shows rows that pass its tests. -/
theorem exists_of_mem_select {rows : List Fields} {distinct : Bool}
    {columns : Option (List String)} {tests : List RowTest} {limit : Option Nat} {row : Fields}
    (h : row ∈ server.select rows distinct columns tests limit) :
    ∃ stored ∈ server.passing rows tests, shown columns stored = row := by
  have hmem := mem_of_mem_firstRows h
  refine List.mem_map.mp ?_
  split at hmem
  · exact mem_of_mem_eraseDupsBy hmem
  · exact hmem

/-- **Where the rows have keys of their own, and the keys are shown, `DISTINCT` drops nothing.** -/
theorem select_distinct {rows : List Fields} {columns : Option (List String)}
    {tests : List RowTest} {limit : Option Nat} {primaryKey : String} {distinct : Bool}
    (hshown : ∀ names, columns = some names → primaryKey ∈ names)
    (hapart : distinct = true → (server.passing rows tests).Pairwise fun a b =>
      server.same (columnOf b primaryKey) (columnOf a primaryKey) = false) :
    server.select rows distinct columns tests limit
      = (firstRows limit (server.passing rows tests)).map (shown columns) := by
  rw [firstRows_map, select]
  cases distinct with
  | false => rfl
  | true =>
    rw [if_pos rfl, eraseDupsBy_eq_self (List.pairwise_map.mpr ((hapart rfl).imp ?_))]
    intro a b hkeys
    rw [← columnOf_shown hshown a, ← columnOf_shown hshown b] at hkeys
    by_contra hsame
    rw [same_of_sameRow (Bool.not_eq_false _ ▸ hsame) primaryKey] at hkeys
    cases hkeys

end Server

end Sql

end QueryAlgebra
