/-
  JsonTables.Proofs.Join — a join that looks partners up in an index gives what two nested loops give.

  `nestedLoop` is the join as its description has it: for every left row the right rows with its key, in
  the order of both lists, and no index. It is written on entries, so that it says where every column of
  a row comes from, and it says itself what the key of a row is.

  Proved:
  - `Scope.keyText?_eq`: the key by which the index is made is the one of the description.
  - `JoinIndex.lookup_ofRows`: a bucket of the index holds the positions of its key, in the order of the list.
  - `Pairing.addLeft_spec`: one more left row adds its pairs, and marks the positions of its partners.
  - `Pairing.foldl_addLeft`: the marked positions are those of the right rows that some left row pairs with.
  - `orientKeys_eq`: the columns change sides exactly where the left one is qualified by the right table.
  - `joinRows_eq_nestedLoop`: the join is the nested loops, row by row and column by column.
  - `joinRows_eq_joinBy`: the rows pair up by their keys and by nothing else.
-/

import JsonTables.Join
import JsonTables.Proofs.Entries
import Std.Data.HashMap.Lemmas
import Std.Data.HashSet.Lemmas

namespace JsonTables

/-! ## The nested loops -/

/-- The text by which a row is joined on a column: none if the column is not there, or holds null or the text that
stands for it. -/
def Scope.joinText? (scope : Scope) (column : String) (row : Row) : Option String :=
  match scope.resolve? row column with
  | none | some .null | some (.text "NULL") => none
  | some v => some v.asText

/-- Whether two rows have one key, each on its own column; a row without a key pairs with none. -/
def Scope.pairs (scope : Scope) (leftKey rightKey : String) (l r : Row) : Bool :=
  match scope.joinText? leftKey l, scope.joinText? rightKey r with
  | some a, some b => a == b
  | _, _ => false

/-- The columns of some rows, each where it first appears. -/
def columnsOf (rows : List Row) : List String := (rows.flatMap Row.keys).eraseDups

namespace Row

/-- The left columns in place, with the right values where both rows have them, then the others. -/
def merged (l r : Row) : Entries Value :=
  l.entries.map (Entries.updated r.entries) ++ r.entries.filter (·.1 ∉ l.keys)

/-- A left row without a partner: null in the right columns that it lacks. -/
def leftAlone (columns : List String) (l : Row) : Entries Value :=
  l.entries ++ (columns.filter (· ∉ l.keys)).map fun c => (c, .null)

/-- A right row without a partner: null in the left columns that it lacks, and these come first. -/
def rightAlone (columns : List String) (r : Row) : Entries Value :=
  columns.map (fun c => (c, (r.get? c).getD .null)) ++ r.entries.filter (·.1 ∉ columns)

end Row

def nestedLoop (scope : Scope) (kind : JoinKind) (leftKey rightKey : String) (left right : List Row) :
    List (Entries Value) :=
  let fromLeft := left.flatMap fun l =>
    let partners := right.filter (scope.pairs leftKey rightKey l)
    if partners.isEmpty then
      if kind = .left ∨ kind = .full then [l.leftAlone (columnsOf right)] else []
    else partners.map l.merged
  let unmatched := right.filter fun r => left.all fun l => !scope.pairs leftKey rightKey l r
  fromLeft ++ if kind = .right ∨ kind = .full then unmatched.map (Row.rightAlone (columnsOf left)) else []

/-- Whether a column is qualified by the name of a table, which is its last segment but one. -/
def qualifiedBy (table : Option String) (column : String) : Bool :=
  match table with
  | some name => name ≠ "" && (pathSegments column).dropLast.getLast? == some name
  | none => false

/-! ## Rows -/

theorem Row.entries_overlay (l r : Row) : (l.overlay r).entries = l.merged r :=
  Entries.overlay_eq l.nodup r.nodup

theorem Row.entries_fill_columnUnion (l : Row) (rows : List Row) :
    (l.fill (columnUnion rows)).entries = l.leftAlone (columnsOf rows) := by
  rw [Row.entries_fill l (nodup_columnUnion rows), columnUnion_eq]
  rfl

theorem Row.entries_blank_overlay (r : Row) (rows : List Row) :
    ((Row.empty.fill (columnUnion rows)).overlay r).entries = r.rightAlone (columnsOf rows) := by
  have hblank : (Row.empty.fill (columnUnion rows)).entries = (columnsOf rows).map fun c => (c, Value.null) := by
    rw [Row.entries_fill_columnUnion]
    have hall : (columnsOf rows).filter (· ∉ Row.empty.keys) = columnsOf rows :=
      List.filter_eq_self.mpr fun c _ => by simp [Row.empty, Row.keys, Entries.keys]
    simp only [Row.leftAlone, hall]
    rfl
  have hkeys : (Row.empty.fill (columnUnion rows)).keys = columnsOf rows := by
    simp [Row.keys, Entries.keys, hblank, Function.comp_def]
  rw [Row.entries_overlay, Row.merged, Row.rightAlone, hblank, hkeys, List.map_map]
  rfl

/-! ## Keys -/

theorem Scope.keyText?_eq (scope : Scope) (column : String) (row : Row) :
    scope.keyText? column row = scope.joinText? column row := by
  unfold keyText? joinText?
  cases scope.resolve? row column with
  | none => rfl
  | some v =>
    cases v with
    | text s => by_cases hs : s = "NULL" <;> simp [Value.isMissing, Value.nullMarker, hs]
    | _ => simp [Value.isMissing]

theorem Scope.pairs_eq (scope : Scope) (leftKey rightKey : String) (l r : Row) :
    scope.pairs leftKey rightKey l r =
      ((scope.keyText? leftKey l).isSome && scope.keyText? leftKey l == scope.keyText? rightKey r) := by
  rw [keyText?_eq, keyText?_eq, pairs]
  cases scope.joinText? leftKey l <;> cases scope.joinText? rightKey r <;> simp

theorem orientKeys_eq (rightName : Option String) (leftKey rightKey : String) :
    orientKeys rightName leftKey rightKey =
      if qualifiedBy rightName leftKey then (rightKey, leftKey) else (leftKey, rightKey) := by
  cases rightName with
  | none => rfl
  | some name =>
    have hsecond : (pathSegments leftKey).dropLast.getLast? = (pathSegments leftKey).reverse.tail.head? := by
      rw [List.tail_reverse, List.head?_reverse]
    rw [qualifiedBy, hsecond]
    unfold orientKeys
    rcases (pathSegments leftKey).reverse with _ | ⟨leaf, _ | ⟨qualifier, rest⟩⟩
    · simp
    · simp
    · by_cases hname : name = "" <;> simp [hname]

/-! ## The index -/

theorem JoinIndex.lookup_add {length : Nat} (index : JoinIndex length) (key : Option String) (position : Fin length)
    (k : String) :
    (index.add key position).lookup k = index.lookup k ++ if key = some k then [position] else [] := by
  cases key with
  | none => simp [add]
  | some j =>
    by_cases hjk : j = k
    · subst hjk
      simp [add, lookup]
    · simp [add, lookup, Std.HashMap.getD_insert, hjk]

theorem JoinIndex.lookup_ofRows (key : Row → Option String) (rows : List Row) (k : String) :
    (ofRows key rows).lookup k = (List.finRange rows.length).filter fun i => key (rows.get i) == some k := by
  have hfold : ∀ (positions : List (Fin rows.length)) (index : JoinIndex rows.length),
      (positions.foldl (fun index i => index.add (key (rows.get i)) i) index).lookup k =
        index.lookup k ++ positions.filter fun i => key (rows.get i) == some k := by
    intro positions
    induction positions with
    | nil => simp
    | cons i rest ih =>
      intro index
      rw [List.foldl_cons, ih, lookup_add, List.append_assoc, List.filter_cons]
      by_cases hi : key (rows.get i) = some k
      · rw [if_pos hi, if_pos (by simpa using hi), List.singleton_append]
      · rw [if_neg hi, if_neg (by simpa using hi), List.nil_append]
  have hempty : (empty : JoinIndex rows.length).lookup k = [] := by simp [empty, lookup]
  rw [ofRows, hfold, hempty, List.nil_append]

/-- The positions that the index has for the key of a left row are those of its partners. -/
theorem positions_eq (scope : Scope) (leftKey rightKey : String) (right : List Row) (l : Row) :
    ((scope.keyText? leftKey l).map (JoinIndex.ofRows (scope.keyText? rightKey) right).lookup).getD [] =
      (List.finRange right.length).filter fun i => scope.pairs leftKey rightKey l (right.get i) := by
  simp only [Scope.pairs_eq]
  cases hl : scope.keyText? leftKey l with
  | none => simp
  | some k =>
    simp only [Option.map_some, Option.getD_some, JoinIndex.lookup_ofRows]
    apply List.filter_congr
    intro i _
    simp [Bool.beq_comm]

/-- Rows at the positions that some rows stand at are these rows. -/
theorem map_filter_finRange (rows : List Row) (p : Row → Bool) :
    ((List.finRange rows.length).filter fun i => p (rows.get i)).map rows.get = rows.filter p := by
  conv_rhs => rw [← List.map_get_finRange rows, List.filter_map]
  rfl

/-! ## Joins by a relation -/

/-- What a left row gives: its pairs, or itself alone where there are none and the kind of join keeps it. -/
def joinLeft (kind : JoinKind) (pairs : Row → Row → Bool) (right : List Row) (l : Row) : List Row :=
  match right.filter (pairs l) with
  | [] => if kind.keepsLeft then [l.fill (columnUnion right)] else []
  | partners => partners.map l.overlay

/-- The join of two lists of rows by a relation between them. -/
def joinBy (kind : JoinKind) (pairs : Row → Row → Bool) (left right : List Row) : List Row :=
  let unmatched := right.filter fun r => left.all fun l => !pairs l r
  left.flatMap (joinLeft kind pairs right) ++
    if kind.keepsRight then unmatched.map (Row.empty.fill (columnUnion left)).overlay else []

namespace Pairing

variable {right : List Row}

theorem foldl_pair (l : Row) (positions : List (Fin right.length)) (pairing : Pairing right.length) :
    (positions.foldl (pair l) pairing).rows.toList =
        pairing.rows.toList ++ positions.map (fun i => l.overlay (right.get i)) ∧
      ∀ i, i ∈ (positions.foldl (pair l) pairing).matched ↔ i ∈ pairing.matched ∨ i ∈ positions := by
  induction positions generalizing pairing with
  | nil => simp
  | cons j rest ih =>
    obtain ⟨hrows, hmatched⟩ := ih (pair l pairing j)
    refine ⟨?_, fun i => ?_⟩
    · rw [List.foldl_cons, hrows]
      simp [pair]
    · rw [List.foldl_cons, hmatched]
      simp only [pair, Std.HashSet.mem_insert, beq_iff_eq, List.mem_cons]
      rw [eq_comm (a := j), or_comm (a := i = j), or_assoc]

section AddLeft

variable {key : Row → Option String} {index : JoinIndex right.length} {pairs : Row → Row → Bool}

/-- One more left row adds what it gives, and marks the positions of its partners. -/
theorem addLeft_spec (kind : JoinKind) (l : Row)
    (hpairs : ((key l).map index.lookup).getD [] = (List.finRange right.length).filter fun i => pairs l (right.get i))
    (pairing : Pairing right.length) :
    (pairing.addLeft kind key index (columnUnion right) l).rows.toList =
        pairing.rows.toList ++ joinLeft kind pairs right l ∧
      ∀ i, i ∈ (pairing.addLeft kind key index (columnUnion right) l).matched ↔
        i ∈ pairing.matched ∨ pairs l (right.get i) = true := by
  have hpartners := map_filter_finRange right (pairs l)
  obtain ⟨hrows, hmatched⟩ := foldl_pair l ((List.finRange right.length).filter fun i => pairs l (right.get i)) pairing
  have hmem (i : Fin right.length) :
      i ∈ (List.finRange right.length).filter (fun i => pairs l (right.get i)) ↔ pairs l (right.get i) = true := by
    simp
  simp only [hmem] at hmatched
  unfold addLeft
  rw [hpairs]
  cases hp : (List.finRange right.length).filter fun i => pairs l (right.get i) with
  | nil =>
    rw [hp] at hrows hmatched hpartners
    rw [joinLeft, ← hpartners]
    cases kind.keepsLeft <;> exact ⟨by simp, hmatched⟩
  | cons i rest =>
    rw [hp] at hrows hmatched hpartners
    rw [joinLeft, ← hpartners]
    exact ⟨hrows.trans (by simp [Function.comp_def]), hmatched⟩

/-- The pass over the left rows. -/
theorem foldl_addLeft (kind : JoinKind)
    (hpairs : ∀ l, ((key l).map index.lookup).getD [] = (List.finRange right.length).filter fun i => pairs l (right.get i))
    (left : List Row) (pairing : Pairing right.length) :
    (left.foldl (addLeft kind key index (columnUnion right)) pairing).rows.toList =
        pairing.rows.toList ++ left.flatMap (joinLeft kind pairs right) ∧
      ∀ i, i ∈ (left.foldl (addLeft kind key index (columnUnion right)) pairing).matched ↔
        i ∈ pairing.matched ∨ ∃ l ∈ left, pairs l (right.get i) = true := by
  induction left generalizing pairing with
  | nil => simp
  | cons l rest ih =>
    obtain ⟨hrows, hmatched⟩ := ih (pairing.addLeft kind key index (columnUnion right) l)
    obtain ⟨hrow, hmark⟩ := addLeft_spec kind l (hpairs l) pairing
    refine ⟨?_, fun i => ?_⟩
    · rw [List.foldl_cons, hrows, hrow, List.flatMap_cons, List.append_assoc]
    · rw [List.foldl_cons, hmatched, hmark, List.exists_mem_cons_iff, or_assoc]

end AddLeft

end Pairing

/-- A join pairs rows by nothing but the texts of their keys. -/
theorem joinRows_eq_joinBy (scope : Scope) (kind : JoinKind) (rightName : Option String)
    (leftKey rightKey : String) (left right : List Row) :
    joinRows scope kind rightName leftKey rightKey left right =
      joinBy kind (scope.pairs (orientKeys rightName leftKey rightKey).1 (orientKeys rightName leftKey rightKey).2)
        left right := by
  unfold joinRows joinBy
  generalize orientKeys rightName leftKey rightKey = keys
  obtain ⟨lk, rk⟩ := keys
  obtain ⟨hrows, hmatched⟩ := Pairing.foldl_addLeft kind (positions_eq scope lk rk right) left Pairing.empty
  dsimp only
  rw [hrows]
  congr 1
  split
  · -- a position is marked exactly where some left row pairs with the row there
    have hsingle := map_filter_finRange right fun r => left.all fun l => !scope.pairs lk rk l r
    rw [← hsingle, List.map_map]
    refine congrArg (List.map _) (List.filter_congr fun i _ => ?_)
    rw [Bool.eq_iff_iff, Bool.not_eq_true', ← Bool.not_eq_true, Std.HashSet.contains_iff_mem, hmatched]
    simp [Pairing.empty]
  · rfl

/-! ## The join -/

theorem joinRows_eq_nestedLoop (scope : Scope) (kind : JoinKind) (rightName : Option String)
    (leftKey rightKey : String) (left right : List Row) :
    (joinRows scope kind rightName leftKey rightKey left right).map Row.entries =
      if qualifiedBy rightName leftKey then nestedLoop scope kind rightKey leftKey left right
      else nestedLoop scope kind leftKey rightKey left right := by
  have hjoin : ∀ lk rk : String, (joinBy kind (scope.pairs lk rk) left right).map Row.entries =
      nestedLoop scope kind lk rk left right := by
    intro lk rk
    unfold joinBy nestedLoop
    rw [List.map_append, List.map_flatMap]
    congr 1
    · congr 1
      funext l
      unfold joinLeft
      cases hp : right.filter (scope.pairs lk rk l) with
      | nil => cases kind <;> simp [JoinKind.keepsLeft, Row.entries_fill_columnUnion]
      | cons r rest => simp [Row.entries_overlay]
    · have halone : Row.entries ∘ (Row.empty.fill (columnUnion left)).overlay = Row.rightAlone (columnsOf left) :=
        funext fun r => Row.entries_blank_overlay r left
      cases kind with
      | inner | left => rfl
      | right | full =>
        simp only [JoinKind.keepsRight, if_true, List.map_map, halone]
        rfl
  rw [joinRows_eq_joinBy, orientKeys_eq]
  by_cases hq : qualifiedBy rightName leftKey = true
  · rw [if_pos hq, if_pos hq, hjoin]
  · rw [if_neg hq, if_neg hq, hjoin]

theorem joinBy_congr (kind : JoinKind) {pairs pairs' : Row → Row → Bool} {left right : List Row}
    (h : ∀ l ∈ left, ∀ r ∈ right, pairs l r = pairs' l r) :
    joinBy kind pairs left right = joinBy kind pairs' left right := by
  have hunmatched : right.filter (fun r => left.all fun l => !pairs l r) =
      right.filter fun r => left.all fun l => !pairs' l r := by
    apply List.filter_congr
    intro r hr
    rw [Bool.eq_iff_iff, List.all_eq_true, List.all_eq_true]
    exact forall₂_congr fun l hl => by rw [h l hl r hr]
  unfold joinBy
  dsimp only
  rw [hunmatched]
  congr 1
  apply List.flatMap_congr
  intro l hl
  rw [joinLeft, joinLeft, List.filter_congr (h l hl)]

end JsonTables
