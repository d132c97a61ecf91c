/-
  JsonTables.Function.Basic — functions with their arity, and the registry in which a query finds them.
  Functions and named constants go by their names without regard to case.
-/

import JsonTables.Arity
import JsonTables.Text.Case
import JsonTables.Value.Basic

namespace JsonTables

/-- A function on argument lists. An aggregate one is applied to the values of a group where it has one
argument. -/
structure Function where
  arity : Arity
  aggregate : Bool
  run : List Value → Except Fault Value

structure Registry where
  functions : Entries Function
  constants : Entries Value

namespace Registry

def empty : Registry := ⟨[], []⟩

/-- The registry with a function put in, in place of one of the same name. -/
def register (r : Registry) (name : String) (f : Function) : Registry :=
  { r with functions := Entries.insert r.functions (Text.lower name) f }

def registerConstant (r : Registry) (name : String) (v : Value) : Registry :=
  { r with constants := Entries.insert r.constants (Text.lower name) v }

def lookup? (r : Registry) (name : String) : Option Function :=
  Entries.get? r.functions (Text.lower name)

def constant? (r : Registry) (name : String) : Option Value :=
  Entries.get? r.constants (Text.lower name)

def isAggregate (r : Registry) (name : String) : Bool :=
  match r.lookup? name with
  | some f => f.aggregate
  | none => false

/-- The names of the functions in alphabetical order. -/
def names (r : Registry) : List String := (Entries.keys r.functions).mergeSort (· ≤ ·)

end Registry

end JsonTables
