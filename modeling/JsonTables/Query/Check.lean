/-
  JsonTables.Query.Check — what is checked of a plan before any row is looked at: every window has a
  function that ranks, and every call of a registered function a number of arguments it takes. The first
  place that fails decides, in the order select list, `WHERE`, `HAVING`, `GROUP BY`, `ORDER BY`.
-/

import JsonTables.Function.Basic
import JsonTables.Plan
import JsonTables.QueryError
import JsonTables.Window

namespace JsonTables

/-- A place in a plan that is checked. -/
inductive CheckPoint where
  | call (name : String) (count : Nat)
  | window (name : String)
  deriving DecidableEq, Repr

namespace Expr

mutual

/-- The calls in an expression, a call before those in its arguments. -/
def checkPoints : Expr → List CheckPoint
  | call name args => .call name args.length :: checkPointsAll args
  | callStar name => [.call name 1]
  | binary _ left right => left.checkPoints ++ right.checkPoints
  | negate operand => operand.checkPoints
  | _ => []

def checkPointsAll : List Expr → List CheckPoint
  | [] => []
  | e :: rest => e.checkPoints ++ checkPointsAll rest

end

end Expr

def Predicate.checkPoints : Predicate → List CheckPoint
  | truth e => e.checkPoints
  | compare _ left right => left.checkPoints ++ right.checkPoints
  | and left right | or left right => left.checkPoints ++ right.checkPoints

def Selected.checkPoints : Selected → List CheckPoint
  | star => []
  | expr e => e.checkPoints
  | window w => .window w.name ::
      (w.partitionBy.flatMap Expr.checkPoints ++ w.orderBy.flatMap fun o => o.expr.checkPoints)

/-- All places of a plan that are checked, in order. -/
def Plan.checkPoints (plan : Plan) : List CheckPoint :=
  plan.select.flatMap (fun i => i.content.checkPoints) ++
    ((plan.where_.map Predicate.checkPoints).getD []) ++
    ((plan.having.map Predicate.checkPoints).getD []) ++
    plan.groupBy.flatMap Expr.checkPoints ++
    plan.orderBy.flatMap fun o => o.expr.checkPoints

/-- What is wrong at a place. -/
def CheckPoint.fault? (registry : Registry) : CheckPoint → Option Malformed
  | call name count => match registry.lookup? name with
    | some f => if f.arity.accepts count then none else some (.arity (Text.lower name) f.arity count)
    | none => none
  | window name => match Ranking.ofName? name with
    | some _ => none
    | none => some (.unknownWindow name)

/-- Fails at the first place where something is wrong. -/
def Plan.check (registry : Registry) (plan : Plan) : Except Malformed Unit :=
  match plan.checkPoints.findSome? (CheckPoint.fault? registry) with
  | some fault => .error fault
  | none => .ok ()

end JsonTables
