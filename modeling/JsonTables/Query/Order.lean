/-
  JsonTables.Query.Order — the rows of a result once each, and in order. A row of the result goes
  together with the row it was made from.
-/

import JsonTables.Json.Writer
import JsonTables.Value.Basic
import JsonTables.Window

namespace JsonTables

/-- A row of the result and the row it was made from. -/
structure Projected where
  out : Row
  source : Row

/-- The JSON text of a row, with the keys of the row and of every mapping in it in alphabetical order. -/
def Row.sortedText (r : Row) : String := Json.compact r.toValue.canonical

/-- Of rows with the same text the first; `seen` are the texts so far. -/
def distinctFrom (seen : List String) : List Projected → List Projected
  | [] => []
  | p :: rest =>
    let text := p.out.sortedText
    if text ∈ seen then distinctFrom seen rest else p :: distinctFrom (text :: seen) rest

/-- The names by which an expression may stand in a result, the likeliest first. -/
def Expr.outputNames (e : Expr) : List String :=
  (match e with
    | .column name => [name]
    | _ => []) ++ [e.render, e.key]

/-- The value by which a row is put in order: one that the result shows, or else that of the row it was
made from. -/
def sortValue (scope : Scope) (p : Projected) (o : OrderItem) : Evaluation Value :=
  match o.expr.outputNames.findSome? p.out.get? with
  | some v => pure v
  | none => o.expr.eval scope p.source

/-- The rows in the order of the keys. -/
def orderRows (scope : Scope) (orderBy : List OrderItem) (rows : List Projected) :
    Evaluation (List Projected) := do
  let keyed ← rows.mapM fun p => do
    let values ← orderBy.mapM (sortValue scope p)
    return (values, p)
  return (sortByKeys (orderBy.map (·.direction)) keyed).map Prod.snd

end JsonTables
