/-
  JsonTables.Window — ranks of rows. Every window divides the rows into partitions by the keys of some
  expressions and ranks each partition in an order; all windows see the rows as they were before any
  rank was written.
-/

import JsonTables.Group

namespace JsonTables

/-- What a window function counts. -/
inductive Ranking where
  /-- The place in the order. -/
  | rowNumber
  /-- The place of the first row that ties. -/
  | rank
  /-- The number of ties so far. -/
  | denseRank
  deriving DecidableEq, Repr

/-- The window function of a name. -/
def Ranking.ofName? (name : String) : Option Ranking :=
  match Text.lower name with
  | "row_number" => some rowNumber
  | "rank" => some rank
  | "dense_rank" => some denseRank
  | _ => none

/-- The comparison of two lists of values key by key. -/
def compareKeys (directions : List Direction) (a b : List Value) : Ordering :=
  match directions, a, b with
  | d :: directions, v :: a, w :: b =>
    match v.sortCompare w with
    | .eq => compareKeys directions a b
    | o => if d = .descending then o.swap else o
  | _, _, _ => .eq

/-- A list in the order of the keys of its members, those that tie as they were. -/
def sortByKeys {α : Type} (directions : List Direction) (keyed : List (List Value × α)) :
    List (List Value × α) :=
  keyed.mergeSort fun x y => compareKeys directions x.1 y.1 != .gt

/-- How far a ranking has come. -/
structure RankState where
  position : Nat
  rank : Nat
  dense : Nat
  previous : Option (List Value)

/-- The state after one more row with these keys. -/
def RankState.next (directions : List Direction) (s : RankState) (keys : List Value) : RankState :=
  let tied : Bool := match s.previous with
    | some previous => compareKeys directions previous keys == .eq
    | none => false
  let position := s.position + 1
  if tied then { s with position, previous := some keys }
  else ⟨position, position, s.dense + 1, some keys⟩

/-- What the state shows of its last row. -/
def RankState.shown (s : RankState) : Ranking → Nat
  | .rowNumber => s.position
  | .rank => s.rank
  | .denseRank => s.dense

/-- The ranks of rows that are in order already. -/
def ranksFrom {α : Type} (ranking : Ranking) (directions : List Direction) (s : RankState) :
    List (List Value × α) → List (α × Nat)
  | [] => []
  | (keys, a) :: rest =>
    let s := s.next directions keys
    (a, s.shown ranking) :: ranksFrom ranking directions s rest

/-- The ranks of a partition. -/
def rankPartition {α : Type} (ranking : Ranking) (directions : List Direction)
    (keyed : List (List Value × α)) : List (α × Nat) :=
  ranksFrom ranking directions ⟨0, 0, 0, none⟩ (sortByKeys directions keyed)

/-- The rows with their places in the list. -/
def placed (rows : List Row) : List (Nat × Row) := (List.range rows.length).zip rows

/-- The rank of every row in a window, by the place of the row. A function of another name ranks
densely. -/
def Window.ranks (scope : Scope) (w : Window) (rows : List Row) : Evaluation (List (Nat × Nat)) := do
  let ranking := (Ranking.ofName? w.name).getD .denseRank
  let keyed ← (placed rows).mapM fun (i, r) => do
    let keys ← rowKeys scope w.partitionBy r
    return (keys, (i, r))
  let parts ← (bucketsBy keyed).mapM fun members => do
    let ordered ← members.mapM fun (i, r) => do
      let values ← w.orderBy.mapM fun o => o.expr.eval scope r
      return (values, i)
    return rankPartition ranking (w.orderBy.map (·.direction)) ordered
  return parts.flatten

/-- The windows of a select list with the names under which they appear. -/
def windowItems (select : List SelectItem) : List (String × Window) :=
  select.filterMap fun item => match item.content with
    | .window w => some (item.outputName, w)
    | _ => none

/-- The rank of the row at a place. -/
def rankAt (ranks : List (Nat × Nat)) (i : Nat) : Value :=
  Value.ofInt (((ranks.find? (·.1 == i)).map Prod.snd).getD 0)

/-- The rows with their ranks in all windows of a select list. -/
def applyWindows (scope : Scope) (select : List SelectItem) (rows : List Row) :
    Evaluation (List Row) := do
  let windows := windowItems select
  if windows.isEmpty then return rows
  let computed ← windows.mapM fun (name, w) => do
    let ranks ← w.ranks scope rows
    return (name, ranks)
  let result := (placed rows).map fun (i, r) =>
    r.setAll (computed.map fun (name, ranks) => (name, rankAt ranks i))
  Evaluation.note (.ranked windows.length rows.length)
  return result

end JsonTables
