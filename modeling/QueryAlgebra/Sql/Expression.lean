import QueryAlgebra.Query.Basic
import QueryAlgebra.Sql.Dialect

/-!
# SQL expressions and formulas

What a filter compiles to, before it is written in a dialect. An expression has a value on a row, a
formula a truth value; a condition is a formula, or a truth value that needs no row.
-/

namespace QueryAlgebra

namespace Sql

/-- Where a part of a text begins. -/
inductive Position where
  /-- At a position counted from one. -/
  | fromStart (n : Int)
  /-- So many characters before the last. -/
  | fromEnd (n : Int)
deriving DecidableEq, Repr

mutual

/-- An expression over the columns of a row. -/
inductive Expression where
  /-- A column. -/
  | column (name : String)
  /-- The null value. -/
  | null
  /-- A value in the type it has. -/
  | literal (v : Value)
  /-- A value to compare a column of unknown type with. -/
  | comparable (v : Value)
  /-- An expression read as a number. -/
  | numericView (e : Expression)
  /-- An expression read as text. -/
  | textView (e : Expression)
  /-- The length of a text. -/
  | length (e : Expression)
  /-- The part of a text from a position on, of at most so many characters. -/
  | substr (e : Expression) (start : Position) (length : Option Int)
  /-- An operation on numbers. -/
  | arith (op : Arith) (left right : Expression)
  /-- The truth value of a formula. -/
  | truth (f : Formula)

/-- A test on the columns of a row. -/
inductive Formula where
  /-- Equality. -/
  | eq (left right : Expression)
  /-- A comparison. -/
  | ordered (relation : Relation) (left right : Expression)
  /-- Whether an expression is null. -/
  | isNull (e : Expression)
  /-- Whether an expression is not null. -/
  | isNotNull (e : Expression)
  /-- Whether an expression differs from a value; null differs from every value. -/
  | differs (left right : Expression)
  /-- Whether two expressions differ; null differs from all but null. -/
  | differsBoth (left right : Expression)
  /-- Whether a text matches a pattern. -/
  | like (e : Expression) (pattern : String)
  /-- Whether a text does not match a pattern. -/
  | notLike (e : Expression) (pattern : String)
  /-- Negation. -/
  | not (f : Formula)
  /-- All of several formulas. -/
  | all (fs : List Formula)
  /-- Any of several formulas. -/
  | any (fs : List Formula)

end

instance : Inhabited Expression := ⟨.null⟩
instance : Inhabited Formula := ⟨.isNull .null⟩

/-! ## 1. Text -/

/-- The sign of an operation on numbers. -/
def arithSign : Arith → String
  | .add => "+"
  | .sub => "-"
  | .mul => "*"
  | .div => "/"
  | .mod => "%"

/-- The sign of a comparison. -/
def relationSign : Relation → String
  | .gt => ">"
  | .lt => "<"
  | .ge => ">="
  | .le => "<="

/-- A `LIKE` test on the text of an expression. -/
def Dialect.likeText (d : Dialect) (e verb pattern : String) : String :=
  e ++ " " ++ verb ++ " " ++ d.text pattern ++ d.likeEscapeClause

mutual

/-- The text of an expression. -/
def Expression.render (d : Dialect) : Expression → String
  | .column name => d.ident name
  | .null => "NULL"
  | .literal v => d.literal v
  | .comparable v => d.comparable v
  | .numericView e => d.numericView (e.render d)
  | .textView e => d.textView (e.render d)
  | .length e => "length(" ++ e.render d ++ ")"
  | .substr e start length =>
    let text := e.render d
    "substr(" ++ text ++ ", "
      ++ (match start with
        | .fromStart n => toString n
        | .fromEnd n => "length(" ++ text ++ ") - " ++ toString n)
      ++ (match length with
        | some n => ", " ++ toString n
        | none => "") ++ ")"
  | .arith op left right =>
    "(" ++ left.render d ++ " " ++ arithSign op ++ " " ++ right.render d ++ ")"
  | .truth f => "(" ++ f.render d ++ ")"

/-- The text of a formula. -/
def Formula.render (d : Dialect) : Formula → String
  | .eq left right => left.render d ++ " = " ++ right.render d
  | .ordered relation left right =>
    left.render d ++ " " ++ relationSign relation ++ " " ++ right.render d
  | .isNull e => e.render d ++ " IS NULL"
  | .isNotNull e => e.render d ++ " IS NOT NULL"
  | .differs left right =>
    "(" ++ left.render d ++ " <> " ++ right.render d ++ " OR " ++ left.render d ++ " IS NULL)"
  | .differsBoth left right =>
    "(" ++ left.render d ++ " <> " ++ right.render d ++ " OR (" ++ left.render d
      ++ " IS NULL) <> (" ++ right.render d ++ " IS NULL))"
  | .like e pattern => d.likeText (e.render d) "LIKE" pattern
  | .notLike e pattern => d.likeText (e.render d) "NOT LIKE" pattern
  | .not f => "NOT (" ++ f.render d ++ ")"
  | .all fs => "(" ++ Text.joined " AND " (renderFormulas d fs) ++ ")"
  | .any fs => "(" ++ Text.joined " OR " (renderFormulas d fs) ++ ")"

/-- The texts of formulas. -/
def renderFormulas (d : Dialect) : List Formula → List String
  | [] => []
  | f :: rest => f.render d :: renderFormulas d rest

end

/-! ## 2. Conditions -/

/-- A compiled row test. -/
inductive Condition where
  /-- A formula over the columns of the row. -/
  | formula (f : Formula)
  /-- An outcome that needs no row. -/
  | const (b : Bool)

namespace Condition

/-- The opposite condition. -/
def not : Condition → Condition
  | .const b => .const !b
  | .formula f => .formula (.not f)

/-- The formulas among conditions. -/
def formulas : List Condition → List Formula
  | [] => []
  | .formula f :: rest => f :: formulas rest
  | .const _ :: rest => formulas rest

/-- Whether a truth value is among conditions. -/
def hasConst (b : Bool) : List Condition → Bool
  | [] => false
  | .const c :: rest => c == b || hasConst b rest
  | .formula _ :: rest => hasConst b rest

/-- All of several conditions. A false one decides, true ones are left out. -/
def all (parts : List Condition) : Condition :=
  if hasConst false parts then .const false
  else match formulas parts with
    | [] => .const true
    | [f] => .formula f
    | fs => .formula (.all fs)

/-- Any of several conditions. A true one decides, false ones are left out. -/
def any (parts : List Condition) : Condition :=
  if hasConst true parts then .const true
  else match formulas parts with
    | [] => .const false
    | [f] => .formula f
    | fs => .formula (.any fs)

end Condition

/-- One side of a comparison. -/
inductive Term where
  /-- The null value. -/
  | null
  /-- A value other than null. -/
  | literal (v : Value)
  /-- An expression over the row; `numeric` when it always yields a number. -/
  | expression (e : Expression) (numeric : Bool)

namespace Term

/-- The term of a value. -/
def ofValue : Value → Term
  | .null => .null
  | v => .literal v

/-- The expression of a term that stands alone. -/
def plain : Term → Expression
  | .null => .null
  | .literal (.number n) => .literal (.number n)
  | .literal v => .comparable v
  | .expression e _ => e

/-- The expression of a term in comparison with another: an expression is read as the other side
    needs it. -/
def against (term other : Term) : Expression :=
  match term, other with
  | .expression e false, .literal (.number _) => .numericView e
  | .expression e _, .literal (.string _) => .textView e
  | term, _ => term.plain

/-- The expression of a term in arithmetic: an expression that may be no number is read as one. -/
def asNumber : Term → Expression
  | .expression e false => .numericView e
  | term => term.plain

end Term

end Sql

end QueryAlgebra
