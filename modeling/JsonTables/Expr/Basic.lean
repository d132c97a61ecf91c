/-
  JsonTables.Expr.Basic — expressions over a row, the conditions built from them, and what a select list
  may hold: expressions, ranks over windows, and the star.
-/

import JsonTables.Value.Basic

namespace JsonTables

inductive Literal where
  | null
  | bool (b : Bool)
  | number (n : Number)
  | text (s : String)
  deriving DecidableEq

def Literal.toValue : Literal → Value
  | null => .null
  | bool b => .bool b
  | number n => .number n
  | text s => .text s

/-- The binary operators of arithmetic. -/
inductive Operator where
  | add | sub | mul | div | rem
  deriving DecidableEq, Repr

def Operator.spelling : Operator → String
  | add => "+"
  | sub => "-"
  | mul => "*"
  | div => "/"
  | rem => "%"

inductive Expr where
  | literal (l : Literal)
  /-- A column by its name, which may be qualified as in `friends.city`. -/
  | column (name : String)
  | call (name : String) (args : List Expr)
  /-- A call on the star, as in `count(*)`. -/
  | callStar (name : String)
  | binary (op : Operator) (left right : Expr)
  | negate (operand : Expr)

inductive Comparison where
  | equal | notEqual | less | lessEqual | greater | greaterEqual | contains
  deriving DecidableEq, Repr

def Comparison.spelling : Comparison → String
  | equal => "="
  | notEqual => "!="
  | less => "<"
  | lessEqual => "<="
  | greater => ">"
  | greaterEqual => ">="
  | contains => "contains"

inductive Predicate where
  /-- An expression that stands alone. -/
  | truth (e : Expr)
  | compare (op : Comparison) (left right : Expr)
  | and (left right : Predicate)
  | or (left right : Predicate)

inductive Direction where
  | ascending | descending
  deriving DecidableEq, Repr

def Direction.spelling : Direction → String
  | ascending => "ASC"
  | descending => "DESC"

/-- A key of an order. -/
structure OrderItem where
  expr : Expr
  direction : Direction

/-- A rank over the rows of a partition in an order. -/
structure Window where
  name : String
  partitionBy : List Expr
  orderBy : List OrderItem

/-- What a select item shows. -/
inductive Selected where
  | star
  | expr (e : Expr)
  | window (w : Window)

structure SelectItem where
  content : Selected
  /-- The name given behind `AS`. -/
  label : Option String

end JsonTables
