/-
  JsonTables.Query.Projection — the rows of a result as the select list wants them. Columns have names
  of their own, and null appears as its marker.
-/

import JsonTables.Dataset.Basic
import JsonTables.Plan
import JsonTables.Window

namespace JsonTables

/-- The name with the least number from two on that makes it new. -/
def freshName (used : List String) (name : String) : String :=
  if name ∈ used then
    let candidates := (List.range (used.length + 1)).map fun i => name ++ "_" ++ toString (i + 2)
    (candidates.find? (· ∉ used)).getD name
  else name

/-- The names with a number behind every one that was used before. -/
def uniqueNames (used : List String) : List String → List String
  | [] => []
  | name :: rest =>
    let name := freshName used name
    name :: uniqueNames (name :: used) rest

/-- Where the values of a result's column come from. -/
inductive ColumnSource where
  /-- A column that the star stands for. -/
  | starred (key : String)
  /-- The rank written under a name. -/
  | rank (name : String)
  | column (name : String)
  | expr (e : Expr)

/-- The value of a source on a row. -/
def ColumnSource.value (scope : Scope) (row : Row) : ColumnSource → Evaluation Value
  | starred key | rank key => pure ((row.get? key).getD .null)
  | column name => pure ((scope.resolve? row name).getD .null)
  | expr e => e.eval scope row

/-- What a result shows of a value. -/
def Value.shown : Value → Value
  | .null => .text nullMarker
  | v => v

/-- The tables of a plan by their names. -/
def Plan.tableNames (plan : Plan) : List String :=
  Dataset.tableName plan.table :: plan.joins.map fun j => Dataset.tableName j.table

/-- The names under which ranks and aggregates stand in the rows. -/
def Plan.hiddenNames (registry : Registry) (plan : Plan) : List String :=
  (windowItems plan.select).map Prod.fst ++
    Entries.keys (collectAggregates registry plan.select plan.having plan.orderBy)

/-- Whether a column's name is qualified by the name of a table. -/
def isQualifiedBy (tables : List String) (key : String) : Bool :=
  let front := key.toList.takeWhile (· ≠ '.')
  front.length < key.length && tables.contains (String.ofList front)

/-- The columns that the star stands for: all but qualified and hidden ones. -/
def Plan.starColumns (registry : Registry) (plan : Plan) (rows : List Row) : List String :=
  let tables := plan.tableNames
  let hidden := plan.hiddenNames registry
  (columnUnion rows).filter fun key => !isQualifiedBy tables key && !hidden.contains key

/-- The columns of a select item: their names and where their values come from. -/
def SelectItem.sources (item : SelectItem) (starColumns : List String) : List (String × ColumnSource) :=
  match item.content with
  | .star => starColumns.map fun key => (key, .starred key)
  | .window _ => [(item.outputName, .rank item.outputName)]
  | .expr (.column name) => [(item.outputName, .column name)]
  | .expr e => [(item.outputName, .expr e)]

/-- The row that a result shows for a row. -/
def projectRow (scope : Scope) (columns : List (String × ColumnSource)) (row : Row) : Evaluation Row := do
  let entries ← columns.mapM fun (name, source) => do
    let v ← source.value scope row
    return (name, v.shown)
  return Row.ofList entries

/-- The columns of a plan's result, named apart. -/
def Plan.columns (registry : Registry) (plan : Plan) (rows : List Row) : List (String × ColumnSource) :=
  let sources := plan.select.flatMap fun item => item.sources (plan.starColumns registry rows)
  (uniqueNames [] (sources.map Prod.fst)).zip (sources.map Prod.snd)

end JsonTables
