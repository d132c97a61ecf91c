/-
  JsonTables.Expr.Eval — the value of an expression, and whether a condition holds, on one row. A name
  that nothing answers to is its own text. An aggregate call that the row holds a value for has that
  value.
-/

import JsonTables.Evaluation
import JsonTables.Expr.Text
import JsonTables.Function.Basic
import JsonTables.Function.OfNumber
import JsonTables.Row
import JsonTables.Value.Order

namespace JsonTables

/-- What names may stand for beside the columns of a row. -/
structure Scope where
  registry : Registry
  /-- The values of names that come before all columns. -/
  bindings : Entries Value

/-! ## Columns -/

/-- The column of a row that a name stands for: the one of that name, else the one of its last segment,
else the first that is qualified and ends in it. -/
def Row.column? (r : Row) (name : String) : Option Value :=
  let leaf := leafOf name
  match r.get? name with
  | some v => some v
  | none =>
    match if leaf ≠ name then r.get? leaf else none with
    | some v => some v
    | none => (r.entries.find? fun e => ("." ++ leaf).toList.isSuffixOf e.1.toList).map Prod.snd

/-- What a name stands for: a variable, a column, or a constant. -/
def Scope.resolve? (scope : Scope) (row : Row) (name : String) : Option Value :=
  match Entries.get? scope.bindings name with
  | some v => some v
  | none =>
    match row.column? name with
    | some v => some v
    | none => scope.registry.constant? name

/-! ## Expressions -/

/-- Whether the call is of an aggregate function, on the star or on one argument. -/
def Registry.isAggregateCall (r : Registry) : Expr → Bool
  | .call name args => args.length == 1 && r.isAggregate name
  | .callStar name => r.isAggregate name
  | _ => false

/-- The operator on two numbers. Division by zero leaves the dividend as it is. -/
def Operator.apply (op : Operator) (a b : Number) : Except Fault Number :=
  match op with
  | add => a.add b
  | sub => a.sub b
  | mul => a.mul b
  | div => if b.isZero then .ok a else a.div b
  | rem => if b.isZero then .ok a else a.rem b

/-- The operator on two values, null unless both are numbers. -/
def Operator.onValues (op : Operator) (a b : Value) : Except Fault Value := do
  match ← a.toNumber, ← b.toNumber with
  | some m, some n => (op.apply m n).map Function.normal
  | _, _ => return .null

/-- The value of opposite sign, null unless it is a number. -/
def Value.negated (v : Value) : Except Fault Value := do
  match ← v.toNumber with
  | some n => return Function.normal n.neg
  | none => return .null

/-- The value that the row holds for a call, if the call is aggregate. -/
def Row.aggregate? (r : Row) (registry : Registry) (call : Expr) : Option Value :=
  if registry.isAggregateCall call then r.get? call.key else none

namespace Expr

mutual

/-- The value of an expression on a row. An unknown function is null, whatever its arguments. -/
def eval (scope : Scope) (row : Row) : Expr → Evaluation Value
  | literal l => pure l.toValue
  | column name => pure ((scope.resolve? row name).getD (.text name))
  | call name args =>
    match row.aggregate? scope.registry (call name args) with
    | some v => pure v
    | none =>
      match scope.registry.lookup? name with
      | none => do
        Evaluation.reportUnknown name
        return .null
      | some f => do
        let values ← evalAll scope row args
        f.run values
  | callStar name =>
    match row.aggregate? scope.registry (callStar name) with
    | some v => pure v
    | none =>
      match scope.registry.lookup? name with
      | none => do
        Evaluation.reportUnknown name
        return .null
      | some f => f.run [Value.ofInt 1]
  | binary op left right => do
    let a ← eval scope row left
    let b ← eval scope row right
    op.onValues a b
  | negate operand => do
    let v ← eval scope row operand
    v.negated

def evalAll (scope : Scope) (row : Row) : List Expr → Evaluation (List Value)
  | [] => pure []
  | e :: rest => do
    let v ← eval scope row e
    let vs ← evalAll scope row rest
    return v :: vs

end

end Expr

/-! ## Conditions -/

/-- Whether a comparison holds. A missing value equals only a missing one and has no order. -/
def Comparison.holds (op : Comparison) (a b : Value) : Bool :=
  match op with
  | contains => Text.contains (Text.lower a.asText) (Text.lower b.asText)
  | _ =>
    if a.isMissing || b.isMissing then
      match op with
      | equal => a.isMissing && b.isMissing
      | notEqual => !(a.isMissing && b.isMissing)
      | _ => false
    else
      match op with
      | equal => a.equal b
      | notEqual => !a.equal b
      | less => a.compare b == .lt
      | lessEqual => a.compare b != .gt
      | greater => a.compare b == .gt
      | greaterEqual => a.compare b != .lt
      | contains => false

/-- Whether a condition holds on a row. The right side of `AND` and `OR` is looked at only if it can
matter. -/
def Predicate.test (scope : Scope) (row : Row) : Predicate → Evaluation Bool
  | truth e => do
    let v ← e.eval scope row
    return v.isTruthy
  | compare op left right => do
    let a ← left.eval scope row
    let b ← right.eval scope row
    return op.holds a b
  | and left right => do
    if ← left.test scope row then right.test scope row else return false
  | or left right => do
    if ← left.test scope row then return true else right.test scope row

/-! ## Aggregate calls -/

namespace Expr

mutual

/-- The aggregate calls in an expression, outermost ones only. -/
def aggregates (registry : Registry) (e : Expr) : List Expr :=
  if registry.isAggregateCall e then [e]
  else match e with
    | call _ args => aggregatesAll registry args
    | binary _ left right => aggregates registry left ++ aggregates registry right
    | negate operand => aggregates registry operand
    | _ => []

def aggregatesAll (registry : Registry) : List Expr → List Expr
  | [] => []
  | e :: rest => aggregates registry e ++ aggregatesAll registry rest

end

end Expr

def Predicate.aggregates (registry : Registry) : Predicate → List Expr
  | truth e => e.aggregates registry
  | compare _ left right => left.aggregates registry ++ right.aggregates registry
  | and left right | or left right => left.aggregates registry ++ right.aggregates registry

def Window.aggregates (registry : Registry) (w : Window) : List Expr :=
  w.partitionBy.flatMap (Expr.aggregates registry) ++
    w.orderBy.flatMap fun o => o.expr.aggregates registry

def Selected.aggregates (registry : Registry) : Selected → List Expr
  | star => []
  | expr e => e.aggregates registry
  | window w => w.aggregates registry

end JsonTables
