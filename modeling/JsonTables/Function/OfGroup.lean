/-
  JsonTables.Function.OfGroup — functions of all values of a group. Missing values do not count.
-/

import JsonTables.Function.OfNumber
import JsonTables.Value.Order

namespace JsonTables.Function

/-- The values that are not missing. -/
def present (values : List Value) : List Value := values.filter (!·.isMissing)

/-- What a value adds to a sum: nothing unless it is a number other than zero. -/
def summand (v : Value) : Number :=
  match v.number? with
  | some n => if n.isZero then .int 0 else n
  | none => .int 0

/-- The sum from left to right. -/
def total (values : List Value) : Except Fault Number :=
  values.foldlM (fun n v => n.add (summand v)) (Number.int 0)

def sum (values : List Value) : Except Fault Value := (total (present values)).map normal

def count (values : List Value) : Except Fault Value := .ok (Value.ofInt (present values).length)

/-- The mean, zero for no values. -/
def average (values : List Value) : Except Fault Value :=
  match present values with
  | [] => .ok (Value.ofInt 0)
  | vs => do return normal (← (← total vs).div (.int vs.length))

/-- The first value that no later one beats, where `side` says which comparison beats. -/
def extreme (side : Ordering) (values : List Value) : Except Fault Value :=
  match present values with
  | [] => .ok (.text Value.nullMarker)
  | v :: vs =>
    let best := vs.foldl (fun best v => if v.sortCompare best = side then v else best) v
    .ok (match best.number? with
      | some n => normal n
      | none => best)

/-- The first value that is neither missing nor the empty text. -/
def coalesce (values : List Value) : Except Fault Value :=
  .ok ((values.find? fun v => !v.isMissing && v != .text "").getD (.text Value.nullMarker))

end JsonTables.Function
