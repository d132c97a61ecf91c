/-
  JsonTables.Group — rows gathered into groups by the keys of some expressions. A group is shown by its
  first row, with the value of every aggregate call under the call's text.
-/

import JsonTables.Expr.Eval
import JsonTables.Value.Order

namespace JsonTables

/-- The aggregate calls of a select list, a condition and an order by their texts, each text once. -/
def collectAggregates (registry : Registry) (select : List SelectItem) (having : Option Predicate)
    (orderBy : List OrderItem) : Entries Expr :=
  let calls := select.flatMap (fun i => i.content.aggregates registry) ++
    ((having.map (Predicate.aggregates registry)).getD []) ++
    orderBy.flatMap fun o => o.expr.aggregates registry
  calls.foldl (fun es call =>
    if (Entries.get? es call.key).isSome then es else es ++ [(call.key, call)]) []

/-- The value of an argument on a row for an aggregate function. A column that is not there is null. -/
def argumentValue (scope : Scope) (row : Row) : Expr → Evaluation Value
  | .column name => pure ((scope.resolve? row name).getD .null)
  | e => e.eval scope row

/-- The value of an aggregate call over the rows of a group. -/
def aggregateValue (scope : Scope) (rows : List Row) : Expr → Evaluation Value
  | .callStar name => match scope.registry.lookup? name with
    | some f => f.run (rows.map fun _ => Value.ofInt 1)
    | none => pure .null
  | .call name (argument :: _) => match scope.registry.lookup? name with
    | some f => do
      let values ← rows.mapM fun r => argumentValue scope r argument
      f.run values
    | none => pure .null
  | _ => pure .null

/-- The keys of a row under some expressions. -/
def rowKeys (scope : Scope) (exprs : List Expr) (row : Row) : Evaluation (List Key) :=
  exprs.mapM fun e => do
    let v ← e.eval scope row
    return v.key

/-- A member put behind the others of its key, in a bucket of its own at the end if there are none. -/
def addToBucket {κ α : Type} [DecidableEq κ] (key : κ) (member : α) : List (κ × List α) → List (κ × List α)
  | [] => [(key, [member])]
  | (k, members) :: rest =>
    if k = key then (k, members ++ [member]) :: rest else (k, members) :: addToBucket key member rest

/-- What falls under equal keys, together. The buckets stand in the order in which their keys came first. -/
def bucketsBy {κ α : Type} [DecidableEq κ] (keyed : List (κ × α)) : List (List α) :=
  (keyed.foldl (fun buckets x => addToBucket x.1 x.2 buckets) []).map Prod.snd

/-- The groups of some rows: one group of all rows if there is nothing to group by. -/
def groupsOf (scope : Scope) (groupBy : List Expr) (rows : List Row) : Evaluation (List (List Row)) :=
  if groupBy.isEmpty then pure [rows]
  else do
    let keyed ← rows.mapM fun r => do
      let keys ← rowKeys scope groupBy r
      return (keys, r)
    return bucketsBy keyed

/-- One row for a group. -/
def groupRow (scope : Scope) (calls : Entries Expr) (rows : List Row) : Evaluation Row :=
  calls.foldlM (fun row e => do
    let v ← aggregateValue scope rows e.2
    return row.insert e.1 v) (rows.head?.getD Row.empty)

/-- One row for every group. -/
def groupRows (scope : Scope) (groupBy : List Expr) (select : List SelectItem)
    (having : Option Predicate) (orderBy : List OrderItem) (rows : List Row) :
    Evaluation (List Row) := do
  let groups ← groupsOf scope groupBy rows
  let calls := collectAggregates scope.registry select having orderBy
  let result ← groups.mapM (groupRow scope calls)
  Evaluation.note (.grouped rows.length result.length)
  return result

end JsonTables
