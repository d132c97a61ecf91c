/-
  JsonTables.Dataset.Basic — a dataset is a mapping with tables, lists of rows, at any depth. A table
  goes by the dotted path to it. A dollar sign in front of a segment does not count, nor do segments
  without a name, nor a first segment `data` or `root` where the dataset has no such key.
-/

import JsonTables.QueryError
import JsonTables.Row
import JsonTables.Text.Search

namespace JsonTables

structure Dataset where
  root : Entries Value

namespace Dataset

/-- The segments of a path that count. -/
def segments (path : String) : List String :=
  (((Text.splitOn '.' path.toList).map fun s => s.dropWhile (· = '$')).filter (!·.isEmpty)).map
    String.ofList

/-- The name by which the columns of a table are qualified: the last segment of its path. -/
def tableName (path : String) : String := (segments path).getLastD path

/-- What stands at a path inside a value. -/
def descend (v : Value) : List String → Option Value
  | [] => some v
  | segment :: rest => match v with
    | .map es => (Entries.get? es segment).bind (descend · rest)
    | _ => none

/-- The rows that a list holds, if it holds mappings only. -/
def rowsOf? (items : List Value) : Option (List Row) :=
  items.mapM fun
    | .map es => some (Row.ofList es)
    | _ => none

/-- The segments that lead from the top of a dataset. -/
def route (d : Dataset) (path : String) : List String :=
  match segments path with
  | first :: rest =>
    if (first == "data" || first == "root") && (Entries.get? d.root first).isNone then rest
    else first :: rest
  | [] => []

/-- The table at a path. -/
def table (d : Dataset) (path : String) : Except QueryError (List Row) :=
  match descend (.map d.root) (d.route path) with
  | none => .error (.unknownTable path .absent)
  | some (.list items) => match rowsOf? items with
    | some rows => .ok rows
    | none => .error (.unknownTable path .notRows)
  | some _ => .error (.unknownTable path .notATable)

/-- The rows with every column a second time under its qualified name. -/
def qualify (name : String) (rows : List Row) : List Row :=
  rows.map fun r => r.setAll (r.entries.map fun e => (name ++ "." ++ e.1, e.2))

mutual

/-- The tables inside a value that stands at a path, with the number of their rows. -/
def tablesIn (path : String) : Value → List (String × Nat)
  | .list items =>
    if !path.isEmpty && (rowsOf? items).isSome then [(path, items.length)] else []
  | .map es => tablesInEntries path es
  | _ => []

def tablesInEntries (path : String) : List (String × Value) → List (String × Nat)
  | [] => []
  | (key, v) :: rest =>
    tablesIn (if path.isEmpty then key else path ++ "." ++ key) v ++ tablesInEntries path rest

end

/-- All tables by their paths, with the number of their rows. -/
def tables (d : Dataset) : List (String × Nat) := tablesIn "" (.map d.root)

end Dataset

end JsonTables
