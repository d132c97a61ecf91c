/-
  JsonTables.Plan — what a statement asks for.
-/

import JsonTables.Expr.Basic

namespace JsonTables

inductive JoinKind where
  | inner | left | right | full
  deriving DecidableEq, Repr

def JoinKind.spelling : JoinKind → String
  | inner => "INNER"
  | left => "LEFT"
  | right => "RIGHT"
  | full => "FULL"

/-- A join with the table at a path, on the equality of two columns. -/
structure Join where
  kind : JoinKind
  table : String
  leftKey : String
  rightKey : String
  deriving DecidableEq, Repr

/-- How the result is to be shown. -/
structure Hints where
  upperHeaders : Bool
  jsonOutput : Bool
  paginate : Bool
  deriving DecidableEq, Repr

def Hints.empty : Hints := ⟨false, false, false⟩

structure Plan where
  distinct : Bool
  select : List SelectItem
  table : String
  joins : List Join
  where_ : Option Predicate
  groupBy : List Expr
  having : Option Predicate
  orderBy : List OrderItem
  limit : Option Nat
  offset : Nat
  hints : Hints

/-- A plan in which nothing is asked for yet. -/
def Plan.blank : Plan := ⟨false, [], "", [], none, [], none, [], none, 0, Hints.empty⟩

end JsonTables
