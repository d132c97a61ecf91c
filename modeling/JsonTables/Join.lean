/-
  JsonTables.Join — joins of two lists of rows on the texts of a key. Rows pair up from left to right, a
  missing key pairs with nothing, and in a pair the values of the right row win. What pairs with nothing
  stays, filled with null, on the sides that the kind of join keeps. Right rows go by their positions, so
  that equal rows stay apart.
-/

import JsonTables.Dataset.Basic
import JsonTables.Expr.Eval
import Std.Data.HashMap
import Std.Data.HashSet

namespace JsonTables

namespace JoinKind

/-- Whether left rows without a partner stay. -/
def keepsLeft : JoinKind → Bool
  | left | full => true
  | inner | right => false

/-- Whether right rows without a partner stay. -/
def keepsRight : JoinKind → Bool
  | right | full => true
  | inner | left => false

end JoinKind

/-- The text by which a row is joined, none if the column is not there or its value is missing. -/
def Scope.keyText? (scope : Scope) (name : String) (row : Row) : Option String :=
  match scope.resolve? row name with
  | some v => if v.isMissing then none else some v.asText
  | none => none

/-! ## Positions by keys -/

/-- The positions of rows in a list of this length by their keys. -/
structure JoinIndex (length : Nat) where
  buckets : Std.HashMap String (List (Fin length))

namespace JoinIndex

variable {length : Nat}

def empty : JoinIndex length := ⟨∅⟩

/-- The positions of a key, in the order of the list. -/
def lookup (index : JoinIndex length) (key : String) : List (Fin length) := index.buckets.getD key []

/-- A position put behind the others of its key. What has no key is not in the index. -/
def add (index : JoinIndex length) (key : Option String) (position : Fin length) : JoinIndex length :=
  match key with
  | some k => ⟨index.buckets.insert k (index.lookup k ++ [position])⟩
  | none => index

/-- The index of some rows by a key that not all of them have. -/
def ofRows (key : Row → Option String) (rows : List Row) : JoinIndex rows.length :=
  (List.finRange rows.length).foldl (fun index i => index.add (key (rows.get i)) i) empty

end JoinIndex

/-! ## The pass over the left rows -/

/-- The rows of a join so far, and the positions of the right rows that are in some of them. -/
structure Pairing (length : Nat) where
  rows : Array Row
  matched : Std.HashSet (Fin length)

namespace Pairing

variable {right : List Row}

def empty {length : Nat} : Pairing length := ⟨#[], ∅⟩

/-- One more pair, of a left row and the right row at a position. -/
def pair (l : Row) (pairing : Pairing right.length) (position : Fin right.length) : Pairing right.length :=
  ⟨pairing.rows.push (l.overlay (right.get position)), pairing.matched.insert position⟩

/-- The pairs of one more left row. Without any it stays alone or goes. -/
def addLeft (kind : JoinKind) (key : Row → Option String) (index : JoinIndex right.length)
    (rightColumns : List String) (pairing : Pairing right.length) (l : Row) : Pairing right.length :=
  let positions := ((key l).map index.lookup).getD []
  let pairing := positions.foldl (pair l) pairing
  if positions.isEmpty && kind.keepsLeft then { pairing with rows := pairing.rows.push (l.fill rightColumns) }
  else pairing

end Pairing

/-- The columns of a join in the order of the tables: a left column that is qualified by the name of
the right table was written on the wrong side. -/
def orientKeys (rightName : Option String) (leftKey rightKey : String) : String × String :=
  match rightName, (pathSegments leftKey).reverse with
  | some name, _ :: qualifier :: _ =>
    if !name.isEmpty && qualifier == name then (rightKey, leftKey) else (leftKey, rightKey)
  | _, _ => (leftKey, rightKey)

/-- The join of two lists of rows on two columns, the right ones of a table of this name. -/
def joinRows (scope : Scope) (kind : JoinKind) (rightName : Option String) (leftKey rightKey : String)
    (left right : List Row) : List Row :=
  let (leftKey, rightKey) := orientKeys rightName leftKey rightKey
  let index := JoinIndex.ofRows (scope.keyText? rightKey) right
  let pairing := left.foldl (Pairing.addLeft kind (scope.keyText? leftKey) index (columnUnion right)) Pairing.empty
  let fromRight :=
    if kind.keepsRight then
      let blank := Row.empty.fill (columnUnion left)
      let single := (List.finRange right.length).filter fun i => !pairing.matched.contains i
      single.map fun i => blank.overlay (right.get i)
    else []
  pairing.rows.toList ++ fromRight

/-- The rows joined with one table after another. -/
def joinAll (scope : Scope) (rows : List Row) : List (Join × List Row) → Evaluation (List Row)
  | [] => pure rows
  | (join, table) :: rest => do
    let name := Dataset.tableName join.table
    let rows := joinRows scope join.kind (some name) join.leftKey join.rightKey rows
      (Dataset.qualify name table)
    Evaluation.note (.joined join.kind join.table rows.length)
    joinAll scope rows rest

end JsonTables
