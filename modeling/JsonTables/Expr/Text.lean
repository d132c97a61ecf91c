/-
  JsonTables.Expr.Text — expressions written as query text. The text names a column that has no name of
  its own, and with the names of functions in lower case it is the key of an aggregate.
-/

import JsonTables.Expr.Basic
import JsonTables.Text.Search
import JsonTables.Token.Basic
import JsonTables.Value.Coercion

namespace JsonTables

/-- A text as a literal; a quote inside is written twice. -/
def Literal.quote (s : String) : String := "'" ++ Text.replace s "'" "''" ++ "'"

def Literal.render : Literal → String
  | text s => quote s
  | null => "null"
  | l => l.toValue.asText

/-- The segments of a dotted name. -/
def pathSegments (name : String) : List String := (Text.splitOn '.' name.toList).map String.ofList

/-- The last segment of a dotted name. -/
def leafOf (name : String) : String := (pathSegments name).getLastD name

namespace Expr

def isBinary : Expr → Bool
  | binary .. => true
  | _ => false

/-- An operand as it stands beside an operator: in parentheses if it has an operator of its own. -/
def guarded (e : Expr) (text : String) : String := if e.isBinary then "(" ++ text ++ ")" else text

mutual

/-- The expression as text, with `fold` done to the names of functions. -/
def renderWith (fold : String → String) : Expr → String
  | literal l => l.render
  | column name => ".".intercalate ((pathSegments name).map escapeName)
  | call name args => fold name ++ "(" ++ ", ".intercalate (renderAll fold args) ++ ")"
  | callStar name => fold name ++ "(*)"
  | binary op left right =>
    guarded left (renderWith fold left) ++ " " ++ op.spelling ++ " " ++
      guarded right (renderWith fold right)
  | negate operand => "-" ++ guarded operand (renderWith fold operand)

def renderAll (fold : String → String) : List Expr → List String
  | [] => []
  | e :: rest => renderWith fold e :: renderAll fold rest

end

/-- The expression as query text. -/
def render (e : Expr) : String := renderWith id e

/-- The text that expressions share whose functions differ in case alone. -/
def key (e : Expr) : String := renderWith Text.lower e

end Expr

/-- The parts of a window as text, those that are there. -/
def Window.renderWith (fold : String → String) (w : Window) : String :=
  let partition := ", ".intercalate (w.partitionBy.map (Expr.renderWith fold))
  let order := ", ".intercalate
    (w.orderBy.map fun o => Expr.renderWith fold o.expr ++ " " ++ o.direction.spelling)
  let parts := (if w.partitionBy.isEmpty then [] else ["PARTITION BY " ++ partition]) ++
    (if w.orderBy.isEmpty then [] else ["ORDER BY " ++ order])
  fold w.name ++ "() OVER (" ++ " ".intercalate parts ++ ")"

namespace Selected

def renderWith (fold : String → String) : Selected → String
  | star => "*"
  | expr e => e.renderWith fold
  | window w => w.renderWith fold

def render (s : Selected) : String := s.renderWith id

def key (s : Selected) : String := s.renderWith Text.lower

end Selected

/-! ## Integers in texts -/

def Literal.integers : Literal → List Int
  | .number (.int n) => [n]
  | _ => []

namespace Expr

mutual

/-- The integers among the literals of an expression, from left to right. -/
def integers : Expr → List Int
  | literal l => l.integers
  | column _ | callStar _ => []
  | call _ args => integersOf args
  | binary _ left right => left.integers ++ right.integers
  | negate operand => operand.integers

def integersOf : List Expr → List Int
  | [] => []
  | e :: rest => e.integers ++ integersOf rest

end

end Expr

def Window.integers (w : Window) : List Int :=
  Expr.integersOf w.partitionBy ++ w.orderBy.flatMap fun o => o.expr.integers

namespace Selected

/-- The integers among the literals of what is selected. -/
def integers : Selected → List Int
  | star => []
  | expr e => e.integers
  | window w => w.integers

/-- The text of what is selected, if no integer in it has too many digits. In a statement that was read none has. -/
def toText (s : Selected) : Except Fault String :=
  if s.integers.all fun n => (Number.int n).withinDigits maxDigits then .ok s.render else .error .digits

end Selected

/-- The name under which an item appears: the one given, a column's last segment, or its text. -/
def SelectItem.outputName (item : SelectItem) : String :=
  match item.label, item.content with
  | some name, _ => name
  | none, .expr (.column name) => leafOf name
  | none, content => content.render

end JsonTables
