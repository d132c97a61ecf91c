/-
  JsonTables.Query.Execute — a plan carried out on a dataset. First the plan is checked and its tables
  are found; after that nothing but arithmetic can fail. The rows pass through joins, `WHERE`, groups,
  `HAVING`, ranks, projection, `DISTINCT`, order and the slice that is asked for.
-/

import JsonTables.Function.Builtin
import JsonTables.Join
import JsonTables.Query.Check
import JsonTables.Query.Order
import JsonTables.Query.Projection

namespace JsonTables

structure QueryResult where
  columns : List String
  rows : List Row
  /-- The rows as JSON text, if that was asked for. There is none if an integer in them has too many digits. -/
  output : Option (Except Fault String)
  paginate : Bool
  warnings : List String

/-- The tables of a plan. -/
structure SourceTables where
  base : List Row
  joined : List (Join × List Row)

namespace Plan

/-- The tables that a plan names, if it passes its check. -/
def tables (registry : Registry) (plan : Plan) (dataset : Dataset) : Except QueryError SourceTables := do
  (plan.check registry).mapError .malformed
  let base ← dataset.table plan.table
  let joined ← plan.joins.mapM fun j => do
    let rows ← dataset.table j.table
    return (j, rows)
  return ⟨base, joined⟩

/-- The rows that pass a condition. -/
def filterRows (scope : Scope) (clause : Clause) (condition : Option Predicate) (rows : List Row) :
    Evaluation (List Row) :=
  match condition with
  | none => pure rows
  | some p => do
    let kept ← rows.filterM fun r => p.test scope r
    Evaluation.note (.filtered clause kept.length)
    return kept

/-- Whether the plan shows groups and not single rows. -/
def isGrouped (registry : Registry) (plan : Plan) : Bool :=
  !plan.groupBy.isEmpty || plan.select.any (fun i => !(i.content.aggregates registry).isEmpty) ||
    match plan.having with
    | some p => !(p.aggregates registry).isEmpty
    | none => false

/-- The rows as they are before projection. -/
def workingRows (scope : Scope) (plan : Plan) (tables : SourceTables) : Evaluation (List Row) := do
  let rows := Dataset.qualify (Dataset.tableName plan.table) tables.base
  Evaluation.note (.base plan.table rows.length)
  let rows ← joinAll scope rows tables.joined
  let rows ← filterRows scope .where_ plan.where_ rows
  let rows ← if plan.isGrouped scope.registry then
      groupRows scope plan.groupBy plan.select plan.having plan.orderBy rows
    else pure rows
  let rows ← filterRows scope .having plan.having rows
  applyWindows scope plan.select rows

/-- The rows of the result, each with the row it was made from, before the slice. -/
def projectedRows (scope : Scope) (plan : Plan) (columns : List (String × ColumnSource)) (rows : List Row) :
    Evaluation (List Projected) := do
  let projected ← rows.mapM fun r => do
    let out ← projectRow scope columns r
    return (⟨out, r⟩ : Projected)
  let projected ← if plan.distinct && plan.groupBy.isEmpty then do
      let kept := distinctFrom [] projected
      Evaluation.note (.distinct kept.length)
      pure kept
    else pure projected
  if plan.orderBy.isEmpty then return projected else orderRows scope plan.orderBy projected

/-- The rows from the offset on, as many as the limit allows. -/
def slice {α : Type} (plan : Plan) (rows : List α) : List α :=
  let rest := rows.drop plan.offset
  match plan.limit with
  | some limit => rest.take limit
  | none => rest

end Plan

/-- A row with its columns in upper case; of columns that become equal the last value counts. -/
def Row.upperKeys (r : Row) : Row := Row.ofList (r.entries.map fun e => (Text.upper e.1, e.2))

/-- Rows as JSON text, if no integer in them has too many digits. -/
def Row.jsonText (rows : List Row) : Except Fault String :=
  let v : Value := .list (rows.map Row.toValue)
  if v.withinDigits maxDigits then .ok (Json.pretty v) else .error .digits

/-- The result as the hints ask for it. JSON text is not shown in pages. -/
def Hints.present (hints : Hints) (columns : List String) (rows : List Row) (warnings : List String) :
    QueryResult :=
  let columns := if hints.upperHeaders then columns.map Text.upper else columns
  let rows := if hints.upperHeaders then rows.map Row.upperKeys else rows
  ⟨columns, rows, if hints.jsonOutput then some (Row.jsonText rows) else none,
    hints.paginate && !hints.jsonOutput, warnings⟩

namespace Plan

/-- The result of a plan on its tables. -/
def evaluate (registry : Registry) (plan : Plan) (tables : SourceTables) : Evaluation QueryResult := do
  let scope : Scope := ⟨registry, []⟩
  let rows ← plan.workingRows scope tables
  let columns := plan.columns registry rows
  let projected ← plan.projectedRows scope columns rows
  let shown := (plan.slice projected).map (·.out)
  let journal ← getThe Journal
  let result := plan.hints.present (columns.map Prod.fst) shown journal.warnings
  Evaluation.note (.result result.rows.length result.columns.length)
  return result

/-- A plan carried out on a dataset: refused, or begun with what it came to and what was noted. -/
def execute (registry : Registry) (plan : Plan) (dataset : Dataset) :
    Except QueryError (Except Fault QueryResult × Journal) := do
  let tables ← plan.tables registry dataset
  return (plan.evaluate registry tables).start []

end Plan

end JsonTables
