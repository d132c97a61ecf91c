/-
  JsonTables.Proofs.Provenance — where the rows of joins come from, and what their columns show of it.

  A joined row comes from a pair of rows, or from one row alone whose partner's columns are filled with
  null. Along a chain of joins a row therefore comes from at most one row of each table, and under every
  name it has what the last of these rows with the name has, or null. Null is filled in only under names
  that some row of the other table has: where none has a column, a name qualified by that table is left to
  its last segment, and so to a column of the row that is there (`empty_side_shows_other_side`).

  Proved:
  - `joinRows_eq_origins`: a join is the list of its origins, each with its row.
  - `Row.ShowsLatest.overlay`, `.fill`, `.alone`: what one join adds keeps the invariant of the chain.
  - `absent_side_of_join`: what the absent side of a join reads as.
  - `joinAll_stems`: every row of a chain stems from rows of its tables.
-/

import JsonTables.Function.Builtin
import JsonTables.Proofs.Evaluation
import JsonTables.Proofs.Join
import JsonTables.Proofs.Qualified

namespace JsonTables

open Evaluation

/-! ## Origins -/

/-- What a joined row comes from. -/
inductive Origin where
  | pair (l r : Row)
  | leftAlone (l : Row)
  | rightAlone (r : Row)

namespace Origin

/-- The joined row of an origin in the join of two lists of rows. -/
def row (left right : List Row) : Origin → Row
  | pair l r => l.overlay r
  | leftAlone l => l.fill (columnUnion right)
  | rightAlone r => (Row.empty.fill (columnUnion left)).overlay r

end Origin

/-- The origins of all rows of a join, in their order. -/
def joinOrigins (scope : Scope) (kind : JoinKind) (leftKey rightKey : String) (left right : List Row) : List Origin :=
  (left.flatMap fun l =>
    let partners := right.filter (scope.pairs leftKey rightKey l)
    if partners.isEmpty then if kind.keepsLeft then [.leftAlone l] else []
    else partners.map (.pair l)) ++
  if kind.keepsRight then
    (right.filter fun r => left.all fun l => !scope.pairs leftKey rightKey l r).map .rightAlone
  else []

theorem joinRows_eq_origins (scope : Scope) (kind : JoinKind) (rightName : Option String) (leftKey rightKey : String)
    (left right : List Row) :
    let keys := orientKeys rightName leftKey rightKey
    joinRows scope kind rightName leftKey rightKey left right =
      (joinOrigins scope kind keys.1 keys.2 left right).map (Origin.row left right) := by
  intro keys
  rw [joinRows_eq_joinBy, joinBy, joinOrigins, List.map_append, List.map_flatMap]
  congr 1
  · congr 1
    funext l
    unfold joinLeft
    cases hp : right.filter (scope.pairs keys.1 keys.2 l) with
    | nil =>
      simp only [List.isEmpty_nil, if_true]
      cases kind.keepsLeft <;> rfl
    | cons r rest =>
      simp only [List.isEmpty_cons, Bool.false_eq_true, if_false, List.map_map]
      rfl
  · cases kind.keepsRight with
    | false => rfl
    | true =>
      simp only [if_true, List.map_map]
      rfl

section Members

variable {scope : Scope} {kind : JoinKind} {leftKey rightKey : String} {left right : List Row}

theorem mem_of_pair_mem {l r : Row} (h : .pair l r ∈ joinOrigins scope kind leftKey rightKey left right) :
    l ∈ left ∧ r ∈ right := by
  rcases List.mem_append.mp h with h | h
  · obtain ⟨l', hl', hmem⟩ := List.mem_flatMap.mp h
    dsimp only at hmem
    split at hmem
    · split at hmem <;> simp at hmem
    · obtain ⟨r', hr', heq⟩ := List.mem_map.mp hmem
      cases heq
      exact ⟨hl', (List.mem_filter.mp hr').1⟩
  · split at h
    · simp at h
    · cases h

/-- A left row stays alone in a join that keeps such rows if it has no partner. -/
theorem leftAlone_mem_iff {l : Row} : .leftAlone l ∈ joinOrigins scope kind leftKey rightKey left right ↔
    kind.keepsLeft = true ∧ l ∈ left ∧ ∀ r ∈ right, scope.pairs leftKey rightKey l r = false := by
  have hright : .leftAlone l ∉ (if kind.keepsRight then
      (right.filter fun r => left.all fun l => !scope.pairs leftKey rightKey l r).map Origin.rightAlone else []) := by
    split <;> simp
  unfold joinOrigins
  rw [List.mem_append, or_iff_left hright, List.mem_flatMap]
  constructor
  · rintro ⟨l', hl', hmem⟩
    dsimp only at hmem
    split at hmem
    · rename_i hempty
      split at hmem
      · rename_i hkeep
        cases List.mem_singleton.mp hmem
        refine ⟨hkeep, hl', fun r hr => ?_⟩
        simpa using List.filter_eq_nil_iff.mp (List.isEmpty_iff.mp hempty) r hr
      · cases hmem
    · simp at hmem
  · rintro ⟨hkeep, hl, hnone⟩
    have hempty : right.filter (scope.pairs leftKey rightKey l) = [] :=
      List.filter_eq_nil_iff.mpr fun r hr => by simp [hnone r hr]
    exact ⟨l, hl, by simp [hempty, hkeep]⟩

/-- So does a right row. -/
theorem rightAlone_mem_iff {r : Row} : .rightAlone r ∈ joinOrigins scope kind leftKey rightKey left right ↔
    kind.keepsRight = true ∧ r ∈ right ∧ ∀ l ∈ left, scope.pairs leftKey rightKey l r = false := by
  have hleft : .rightAlone r ∉ left.flatMap fun l =>
      let partners := right.filter (scope.pairs leftKey rightKey l)
      if partners.isEmpty then if kind.keepsLeft then [.leftAlone l] else [] else partners.map (Origin.pair l) := by
    intro hmem
    obtain ⟨l, -, hmem⟩ := List.mem_flatMap.mp hmem
    dsimp only at hmem
    split at hmem
    · split at hmem <;> simp at hmem
    · simp at hmem
  unfold joinOrigins
  rw [List.mem_append, or_iff_right hleft]
  split
  · rename_i hkeep
    simp [hkeep]
  · rename_i hkeep
    simp [hkeep]

end Members

/-! ## The absent side -/

/-- Whether some row has the column. -/
def hasColumn (rows : List Row) (column : String) : Bool := rows.any (·.contains column)

/-- What the name of a column, qualified by a table that a row has no part in, stands for: null if the rows
of that table have the column, else the row's own column of the name, else a constant. -/
def absentValue? (registry : Registry) (table : String) (rows : List Row) (row : Row) (column : String) : Option Value :=
  if hasColumn rows column then some .null
  else (row.get? column).or (registry.constant? (qualifiedName table column))

section Absent

variable {registry : Registry} {s t : String} {own other : List Row} {r : Row} {c : String}

theorem mem_columnUnion_qualified (hother : ∀ r ∈ other, r.HasPlainColumns) (hc : IsPlain c) :
    (qualifiedName t c ∈ columnUnion (Dataset.qualify t other) ↔ hasColumn other c = true) ∧
      (c ∈ columnUnion (Dataset.qualify t other) ↔ hasColumn other c = true) := by
  have hrows : Dataset.qualify t other = other.map (Row.qualified t) := rfl
  have hshown : ∀ name, name ∈ columnUnion (Dataset.qualify t other) ↔
      ∃ r ∈ other, (r.qualified t).contains name = true := by
    intro name
    rw [hrows, mem_columnUnion]
    simp only [List.mem_map, exists_exists_and_eq_and]
  rw [hshown, hshown, hasColumn, List.any_eq_true]
  constructor
  · refine exists_congr fun r => and_congr_right fun hr => ?_
    rw [Row.contains, Row.get?_qualified_name (hother r hr)]
    rfl
  · refine exists_congr fun r => and_congr_right fun _ => ?_
    rw [Row.contains, Row.get?_qualified_of_plain t r hc]
    rfl

theorem resolve?_eq (row : Row) (name : String) :
    (⟨registry, []⟩ : Scope).resolve? row name = (row.column? name).or (registry.constant? name) := by
  unfold Scope.resolve?
  cases row.column? name <;> rfl

/-- A row of one table beside the columns of another, filled with null, in which the name of a column
qualified by the other table is looked up. -/
theorem resolve?_absent (hne : s ≠ t) (hown : ∀ r ∈ own, r.HasPlainColumns) (hother : ∀ r ∈ other, r.HasPlainColumns)
    (hr : r ∈ Dataset.qualify s own) (hc : IsPlain c) {row : Row} (hplain : row.LeavesPlain)
    (hrow : ∀ name, row.get? name =
      (r.get? name).or (if name ∈ columnUnion (Dataset.qualify t other) then some .null else none)) :
    (⟨registry, []⟩ : Scope).resolve? row (qualifiedName t c) = absentValue? registry t other r c := by
  obtain ⟨hqualified, hunqualified⟩ := mem_columnUnion_qualified (t := t) hother hc
  obtain ⟨r, hmem, rfl⟩ := List.mem_map.mp hr
  have hnone : (r.qualified s).get? (qualifiedName t c) = none := Row.get?_qualified_of_ne hne (hown r hmem) hc
  have hexact : row.get? (qualifiedName t c) = if hasColumn other c then some .null else none := by
    rw [hrow]
    show ((r.qualified s).get? _).or _ = _
    rw [hnone, Option.none_or]
    simp only [hqualified]
  rw [resolve?_eq, Row.column?_qualified hplain t hc, hexact, absentValue?]
  by_cases hcolumn : hasColumn other c = true
  · simp [hcolumn]
  · have hlast : row.get? c = (r.qualified s).get? c := by
      rw [hrow, if_neg (fun h => hcolumn (hunqualified.mp h)), Option.or_none]
      rfl
    simp only [hcolumn, Bool.false_eq_true, if_false, Option.none_or, hlast]
    rfl

end Absent

theorem leavesPlain_qualify {rows : List Row} (h : ∀ r ∈ rows, r.HasPlainColumns) (table : String) :
    ∀ r ∈ Dataset.qualify table rows, r.LeavesPlain := by
  intro r hr
  obtain ⟨r, hmem, rfl⟩ := List.mem_map.mp hr
  exact Row.leavesPlain_qualified (h r hmem) table

/-- The rows of a join that have no partner come from the rows of the sides that it keeps. Such a row reads a
column of the other table as null if some row of that table has it. If none has, the name stands for the
row's own column, as a qualified name does where the column it names is not there. -/
theorem absent_side_of_join (registry : Registry) (kind : JoinKind) (leftKey rightKey s t : String) (hne : s ≠ t)
    (lefts rights : List Row) (hlefts : ∀ r ∈ lefts, r.HasPlainColumns) (hrights : ∀ r ∈ rights, r.HasPlainColumns) :
    let scope : Scope := ⟨registry, []⟩
    let left := Dataset.qualify s lefts
    let right := Dataset.qualify t rights
    let keys := orientKeys (some t) leftKey rightKey
    let origins := joinOrigins scope kind keys.1 keys.2 left right
    joinRows scope kind (some t) leftKey rightKey left right = origins.map (Origin.row left right) ∧
    (∀ l, .leftAlone l ∈ origins ↔
      kind.keepsLeft = true ∧ l ∈ left ∧ ∀ r ∈ right, scope.pairs keys.1 keys.2 l r = false) ∧
    (∀ r, .rightAlone r ∈ origins ↔
      kind.keepsRight = true ∧ r ∈ right ∧ ∀ l ∈ left, scope.pairs keys.1 keys.2 l r = false) ∧
    (∀ l, .leftAlone l ∈ origins → ∀ c, IsPlain c →
      scope.resolve? (Origin.row left right (.leftAlone l)) (qualifiedName t c) = absentValue? registry t rights l c) ∧
    ∀ r, .rightAlone r ∈ origins → ∀ c, IsPlain c →
      scope.resolve? (Origin.row left right (.rightAlone r)) (qualifiedName s c) = absentValue? registry s lefts r c := by
  intro scope left right keys origins
  have hleft := leavesPlain_qualify hlefts s
  have hright := leavesPlain_qualify hrights t
  refine ⟨joinRows_eq_origins .., fun l => leftAlone_mem_iff, fun r => rightAlone_mem_iff, ?_, ?_⟩
  · intro l hl c hc
    have hmem : l ∈ left := (leftAlone_mem_iff.mp hl).2.1
    exact resolve?_absent hne hlefts hrights hmem hc (Row.leavesPlain_fill (hleft l hmem) hright)
      fun name => Row.get?_fill l _ name
  · intro r hr c hc
    have hmem : r ∈ right := (rightAlone_mem_iff.mp hr).2.1
    have hplain := Row.leavesPlain_overlay (Row.leavesPlain_fill Row.leavesPlain_empty hleft) (hright r hmem)
    refine resolve?_absent hne.symm hrights hlefts hmem hc hplain fun name => ?_
    show ((Row.empty.fill (columnUnion left)).overlay r).get? name = _
    rw [Row.get?_overlay, Row.get?_fill]
    rfl

/-- People and cities that do not meet: each side keeps its row, and its columns of the other side are null. -/
theorem absent_side_of_join_strangers :
    let scope : Scope := ⟨Registry.builtin, []⟩
    let emily := Row.ofList [("name", .text "Emily"), ("city_id", Value.ofInt 2)]
    let angeles := Row.ofList [("id", Value.ofInt 3), ("city", .text "LA")]
    let left := Dataset.qualify "people" [emily]
    let right := Dataset.qualify "cities" [angeles]
    scope.resolve? (Origin.row left right (.leftAlone (emily.qualified "people"))) "cities.city" = some .null ∧
      scope.resolve? (Origin.row left right (.rightAlone (angeles.qualified "cities"))) "people.name" = some .null := by
  intro scope emily angeles left right
  have hemily : emily.HasPlainColumns := Row.hasPlainColumns_iff.mpr (by decide +kernel)
  have hangeles : angeles.HasPlainColumns := Row.hasPlainColumns_iff.mpr (by decide +kernel)
  have hpairs : scope.pairs "people.city_id" "cities.id" (emily.qualified "people") (angeles.qualified "cities") = false := by
    decide +kernel
  have horient : orientKeys (some "cities") "people.city_id" "cities.id" = ("people.city_id", "cities.id") := by
    decide +kernel
  obtain ⟨_, hlefts, hrights, hl, hr⟩ := absent_side_of_join Registry.builtin .full "people.city_id" "cities.id"
    "people" "cities" (by decide) [emily] [angeles] (by simpa using hemily) (by simpa using hangeles)
  rw [horient] at hlefts hrights hl hr
  constructor
  · refine (hl _ ((hlefts _).mpr ⟨rfl, List.mem_singleton_self _, ?_⟩) "city" (by decide +kernel)).trans
      (by decide +kernel)
    exact fun r hmem => (List.mem_singleton.mp hmem) ▸ hpairs
  · refine (hr _ ((hrights _).mpr ⟨rfl, List.mem_singleton_self _, ?_⟩) "name" (by decide +kernel)).trans
      (by decide +kernel)
    exact fun l hmem => (List.mem_singleton.mp hmem) ▸ hpairs

/-- Where the right table has no rows, a left row without a partner reads `r.c` as its own `c`. -/
theorem empty_side_shows_other_side :
    let scope : Scope := ⟨Registry.builtin, []⟩
    let row := (Row.ofList [("id", Value.ofInt 1), ("c", .text "x")]).qualified "l"
    let left := Dataset.qualify "l" [Row.ofList [("id", Value.ofInt 1), ("c", .text "x")]]
    let right := Dataset.qualify "r" []
    .leftAlone row ∈ joinOrigins scope .left "l.id" "r.id" left right ∧
      joinRows scope .left (some "r") "l.id" "r.id" left right = [Origin.row left right (.leftAlone row)] ∧
      scope.resolve? (Origin.row left right (.leftAlone row)) "r.c" = some (.text "x") := by
  intro scope row left right
  have horient : orientKeys (some "r") "l.id" "r.id" = ("l.id", "r.id") := by decide +kernel
  have horigins : joinOrigins scope .left "l.id" "r.id" left right = [.leftAlone row] := rfl
  refine ⟨?_, ?_, by decide +kernel⟩
  · rw [horigins]
    exact List.mem_singleton_self _
  · rw [joinRows_eq_origins, horient, horigins]
    rfl

/-! ## Chains of joins -/

/-- Rows chosen from tables, at most one from each, with the names and in the order of their tables. -/
inductive Chosen : List (String × List Row) → List (String × Row) → Prop
  | nil : Chosen [] []
  | skip {t : String × List Row} {tables : List (String × List Row)} {chosen : List (String × Row)} :
      Chosen tables chosen → Chosen (t :: tables) chosen
  | take {t : String × List Row} {tables : List (String × List Row)} {r : Row} {chosen : List (String × Row)} :
      r ∈ t.2 → Chosen tables chosen → Chosen (t :: tables) ((t.1, r) :: chosen)

namespace Chosen

variable {t : String × List Row} {tables : List (String × List Row)} {chosen : List (String × Row)} {r : Row}

theorem none : ∀ tables : List (String × List Row), Chosen tables []
  | [] => .nil
  | _ :: tables => .skip (none tables)

theorem skip_last (h : Chosen tables chosen) (t : String × List Row) : Chosen (tables ++ [t]) chosen := by
  induction h with
  | nil => exact .skip .nil
  | skip _ ih => exact .skip ih
  | take hr _ ih => exact .take hr ih

theorem take_last (h : Chosen tables chosen) (hr : r ∈ t.2) : Chosen (tables ++ [t]) (chosen ++ [(t.1, r)]) := by
  induction h with
  | nil => exact .take hr .nil
  | skip _ ih => exact .skip ih
  | take hr' _ ih => exact .take hr' ih

theorem names_sublist (h : Chosen tables chosen) : (chosen.map Prod.fst).Sublist (tables.map Prod.fst) := by
  induction h with
  | nil => exact .slnil
  | skip _ ih => exact ih.cons _
  | take _ _ ih => exact ih.cons_cons _

theorem row_mem (h : Chosen tables chosen) : ∀ x ∈ chosen, ∃ t ∈ tables, t.1 = x.1 ∧ x.2 ∈ t.2 := by
  induction h with
  | nil => simp
  | skip _ ih =>
    intro x hx
    obtain ⟨t, ht, heq, hmem⟩ := ih x hx
    exact ⟨t, List.mem_cons_of_mem _ ht, heq, hmem⟩
  | @take t _ r _ hr _ ih =>
    intro x hx
    rcases List.mem_cons.mp hx with rfl | hx
    · exact ⟨t, List.mem_cons_self, rfl, hr⟩
    · obtain ⟨t', ht, heq, hmem⟩ := ih x hx
      exact ⟨t', List.mem_cons_of_mem _ ht, heq, hmem⟩

end Chosen

/-- What the last of some rows that has a column has there. -/
def latest? (rows : List Row) (name : String) : Option Value := rows.reverse.findSome? (·.get? name)

theorem latest?_concat (rows : List Row) (r : Row) (name : String) :
    latest? (rows ++ [r]) name = (r.get? name).or (latest? rows name) := by
  unfold latest?
  rw [List.reverse_append, List.reverse_singleton, List.singleton_append, List.findSome?_cons]
  cases r.get? name <;> rfl

/-- A value that one of the rows has, and no other row differs from, is the latest. -/
theorem latest?_eq_some {rows : List Row} {name : String} {v : Value}
    (hall : ∀ r ∈ rows, r.get? name = none ∨ r.get? name = some v)
    (hone : ∃ r ∈ rows, r.get? name = some v) : latest? rows name = some v := by
  cases hlatest : latest? rows name with
  | none =>
    obtain ⟨r, hr, hv⟩ := hone
    have hnone := List.findSome?_eq_none_iff.mp hlatest r (List.mem_reverse.mpr hr)
    rw [hv] at hnone
    cases hnone
  | some w =>
    obtain ⟨r, hr, hw⟩ := List.exists_of_findSome?_eq_some hlatest
    rcases hall r (List.mem_reverse.mp hr) with h | h
    · rw [h] at hw
      cases hw
    · exact hw.symm.trans h

/-- Under every name the row has the latest value in some rows, or null where none of them has the name. -/
def Row.ShowsLatest (row : Row) (rows : List Row) : Prop :=
  ∀ name, row.get? name = latest? rows name ∨ latest? rows name = none ∧ row.get? name = some .null

namespace Row.ShowsLatest

variable {row : Row} {rows : List Row}

/-- A partner goes over the row as the last one. -/
theorem overlay (h : row.ShowsLatest rows) (r : Row) : (row.overlay r).ShowsLatest (rows ++ [r]) := by
  intro name
  rw [latest?_concat, get?_overlay]
  cases r.get? name with
  | some v => exact .inl rfl
  | none => exact h name

/-- Nulls go only where the row has nothing. -/
theorem fill (h : row.ShowsLatest rows) (names : List String) : (row.fill names).ShowsLatest rows := by
  intro name
  rw [get?_fill]
  rcases h name with heq | ⟨hnone, hnull⟩
  · cases hv : latest? rows name with
    | some v =>
      rw [heq, hv]
      exact .inl rfl
    | none =>
      rw [heq, hv, Option.none_or]
      by_cases hname : name ∈ names
      · exact .inr ⟨rfl, if_pos hname⟩
      · exact .inl (if_neg hname)
  · exact .inr ⟨hnone, by rw [hnull, Option.some_or]⟩

/-- A row without a partner goes over nulls. -/
theorem alone (names : List String) (r : Row) : ((Row.empty.fill names).overlay r).ShowsLatest [r] := by
  have hblank : (Row.empty.fill names).ShowsLatest [] := fill (fun _ => .inl rfl) names
  exact hblank.overlay r

end Row.ShowsLatest

/-- The row comes from at least one row of the tables, and shows the latest of those that it comes from. -/
def ComesFrom (tables : List (String × List Row)) (row : Row) : Prop :=
  ∃ chosen, Chosen tables chosen ∧ chosen ≠ [] ∧ row.ShowsLatest (chosen.map fun x => x.2.qualified x.1)

/-- One more table: its rows pair with rows that come from the tables so far, or stay alone. -/
theorem comesFrom_of_mem_join (scope : Scope) (kind : JoinKind) (rightName : Option String) (leftKey rightKey : String)
    {tables : List (String × List Row)} {rows : List Row} (h : ∀ row ∈ rows, ComesFrom tables row)
    (t : String × List Row) :
    ∀ row ∈ joinRows scope kind rightName leftKey rightKey rows (Dataset.qualify t.1 t.2),
      ComesFrom (tables ++ [t]) row := by
  intro row hrow
  rw [joinRows_eq_origins] at hrow
  obtain ⟨origin, horigin, rfl⟩ := List.mem_map.mp hrow
  cases origin with
  | pair l r =>
    obtain ⟨hl, hr⟩ := mem_of_pair_mem horigin
    obtain ⟨source, hsource, rfl⟩ := List.mem_map.mp hr
    obtain ⟨chosen, hchosen, -, hshows⟩ := h l hl
    refine ⟨chosen ++ [(t.1, source)], hchosen.take_last hsource, by simp, ?_⟩
    rw [List.map_append]
    exact hshows.overlay _
  | leftAlone l =>
    obtain ⟨-, hl, -⟩ := leftAlone_mem_iff.mp horigin
    obtain ⟨chosen, hchosen, hne, hshows⟩ := h l hl
    exact ⟨chosen, hchosen.skip_last t, hne, hshows.fill _⟩
  | rightAlone r =>
    obtain ⟨-, hr, -⟩ := rightAlone_mem_iff.mp horigin
    obtain ⟨source, hsource, rfl⟩ := List.mem_map.mp hr
    exact ⟨[(t.1, source)], (Chosen.none tables).take_last hsource, by simp, .alone _ _⟩

/-- The table of a join by its name. -/
def joinedTable (j : Join × List Row) : String × List Row := (Dataset.tableName j.1.table, j.2)

theorem joinAll_comesFrom (scope : Scope) (joined : List (Join × List Row)) {tables : List (String × List Row)}
    {rows : List Row} (h : ∀ row ∈ rows, ComesFrom tables row) (journal : Journal) :
    ∃ shown, ((joinAll scope rows joined).start journal).1 = .ok shown ∧
      ∀ row ∈ shown, ComesFrom (tables ++ joined.map joinedTable) row := by
  induction joined generalizing tables rows journal with
  | nil => exact ⟨rows, rfl, by simpa using h⟩
  | cons j joined ih =>
    obtain ⟨join, table⟩ := j
    have hstep := comesFrom_of_mem_join scope join.kind (some (Dataset.tableName join.table)) join.leftKey join.rightKey
      h (joinedTable (join, table))
    obtain ⟨shown, hshown, hfrom⟩ := ih hstep (journal ++ [.joined join.kind join.table _])
    refine ⟨shown, ?_, ?_⟩
    · rw [joinAll]
      exact hshown
    · rw [List.map_cons, List.append_cons]
      exact hfrom

/-! ## What a row of a chain shows -/

/-- The row stems from chosen rows of tables: under a name qualified by one of these tables it shows the row of
that table, under a plain name the last row that has it, and null under all other names. -/
structure Row.StemsFrom (scope : Scope) (row : Row) (chosen : List (String × Row)) : Prop where
  some_row : chosen ≠ []
  qualified : ∀ x ∈ chosen, ∀ c v, x.2.get? c = some v → scope.resolve? row (qualifiedName x.1 c) = some v
  unqualified : ∀ c v, latest? (chosen.map Prod.snd) c = some v → scope.resolve? row c = some v
  others : ∀ name, (∀ x ∈ chosen, ∀ c, x.2.contains c = true → name ≠ c ∧ name ≠ qualifiedName x.1 c) →
    ∀ v, row.get? name = some v → v = .null

theorem resolve?_of_get? {registry : Registry} {row : Row} {name : String} {v : Value} (h : row.get? name = some v) :
    (⟨registry, []⟩ : Scope).resolve? row name = some v := by
  have hcolumn : row.column? name = some v := by
    unfold Row.column?
    simp only [h]
  rw [resolve?_eq, hcolumn, Option.some_or]

section Stems

variable {chosen : List (String × Row)} {row : Row}

theorem Row.ShowsLatest.get?_eq_some {rows : List Row} (h : row.ShowsLatest rows) {name : String} {v : Value}
    (hv : latest? rows name = some v) : row.get? name = some v := by
  rcases h name with heq | ⟨hnone, -⟩
  · exact heq.trans hv
  · rw [hv] at hnone
    cases hnone

/-- Among rows of different tables only one has a name that its table qualifies. -/
theorem latest?_qualified (hnames : (chosen.map Prod.fst).Nodup) (hplain : ∀ x ∈ chosen, x.2.HasPlainColumns)
    {x : String × Row} (hx : x ∈ chosen) {c : String} {v : Value} (hv : x.2.get? c = some v) :
    latest? (chosen.map fun x => x.2.qualified x.1) (qualifiedName x.1 c) = some v := by
  have hown : (x.2.qualified x.1).get? (qualifiedName x.1 c) = some v :=
    (Row.get?_qualified_name (hplain x hx) x.1 c).trans hv
  have hc : IsPlain c := hplain x hx c (Row.contains_of_get? hv)
  refine latest?_eq_some ?_ ⟨_, List.mem_map_of_mem hx, hown⟩
  intro r hr
  obtain ⟨y, hy, rfl⟩ := List.mem_map.mp hr
  by_cases hname : y.1 = x.1
  · obtain rfl : y = x := List.inj_on_of_nodup_map hnames hy hx hname
    exact .inr hown
  · exact .inl (Row.get?_qualified_of_ne hname (hplain y hy) hc)

/-- A plain name is the name of a column, whatever the tables. -/
theorem latest?_plain (chosen : List (String × Row)) {c : String} (hc : IsPlain c) :
    latest? (chosen.map fun x => x.2.qualified x.1) c = latest? (chosen.map Prod.snd) c := by
  unfold latest?
  rw [← List.map_reverse, ← List.map_reverse, List.findSome?_map, List.findSome?_map]
  congr 1
  funext x
  exact Row.get?_qualified_of_plain x.1 x.2 hc

theorem Row.ShowsLatest.stemsFrom (registry : Registry) (h : row.ShowsLatest (chosen.map fun x => x.2.qualified x.1))
    (hne : chosen ≠ []) (hnames : (chosen.map Prod.fst).Nodup) (hplain : ∀ x ∈ chosen, x.2.HasPlainColumns) :
    row.StemsFrom ⟨registry, []⟩ chosen where
  some_row := hne
  qualified := by
    intro x hx c v hv
    exact resolve?_of_get? (h.get?_eq_some (latest?_qualified hnames hplain hx hv))
  unqualified := by
    intro c v hv
    obtain ⟨r, hr, hrv⟩ := List.exists_of_findSome?_eq_some hv
    obtain ⟨x, hx, rfl⟩ := List.mem_map.mp (List.mem_reverse.mp hr)
    have hc : IsPlain c := hplain x hx c (Row.contains_of_get? hrv)
    exact resolve?_of_get? (h.get?_eq_some ((latest?_plain chosen hc).trans hv))
  others := by
    intro name hname v hv
    have hnone : latest? (chosen.map fun x => x.2.qualified x.1) name = none := by
      refine List.findSome?_eq_none_iff.mpr fun r hr => ?_
      obtain ⟨x, hx, rfl⟩ := List.mem_map.mp (List.mem_reverse.mp hr)
      refine Row.get?_eq_none_of_not_contains fun hcontains => ?_
      rcases Row.contains_qualified_iff.mp hcontains with hown | ⟨c, hc, heq⟩
      · exact (hname x hx name hown).1 rfl
      · exact (hname x hx c hc).2 heq
    rcases h name with heq | ⟨-, hnull⟩
    · rw [hnone, hv] at heq
      cases heq
    · rw [hnull] at hv
      exact (Option.some.inj hv).symm

end Stems

/-- A chain of joins of any kinds over tables of different names comes to rows, and each of them stems from one
row at most of each table. -/
theorem joinAll_stems (registry : Registry) (base : String) (rows : List Row) (joined : List (Join × List Row))
    (hnames : (((Dataset.tableName base, rows) :: joined.map joinedTable).map Prod.fst).Nodup)
    (hplain : ∀ t ∈ (Dataset.tableName base, rows) :: joined.map joinedTable, ∀ r ∈ t.2, r.HasPlainColumns)
    (journal : Journal) :
    let scope : Scope := ⟨registry, []⟩
    ∃ shown,
      ((joinAll scope (Dataset.qualify (Dataset.tableName base) rows) joined).start journal).1 = .ok shown ∧
      ∀ row ∈ shown, ∃ chosen, Chosen ((Dataset.tableName base, rows) :: joined.map joinedTable) chosen ∧
        row.StemsFrom scope chosen := by
  intro scope
  have hbase : ∀ row ∈ Dataset.qualify (Dataset.tableName base) rows, ComesFrom [(Dataset.tableName base, rows)] row := by
    intro row hrow
    obtain ⟨r, hr, rfl⟩ := List.mem_map.mp hrow
    refine ⟨[(Dataset.tableName base, r)], .take hr .nil, by simp, fun name => .inl ?_⟩
    show _ = latest? ([] ++ [r.qualified (Dataset.tableName base)]) name
    rw [latest?_concat]
    exact Option.or_none.symm
  obtain ⟨shown, hshown, hfrom⟩ := joinAll_comesFrom scope joined hbase journal
  refine ⟨shown, hshown, fun row hrow => ?_⟩
  obtain ⟨chosen, hchosen, hne, hshows⟩ := hfrom row hrow
  refine ⟨chosen, hchosen, hshows.stemsFrom registry hne (hnames.sublist hchosen.names_sublist) fun x hx => ?_⟩
  obtain ⟨t, ht, -, hmem⟩ := hchosen.row_mem x hx
  exact hplain t ht x.2 hmem

/-- Three tables with a column `v` each, joined so that every table has a row without a partner. -/
theorem joinAll_stems_three_tables :
    let row (id : Int) (v : String) := Row.ofList [("id", Value.ofInt id), ("v", .text v)]
    let scope : Scope := ⟨Registry.builtin, []⟩
    let tables : List (String × List Row) :=
      [("a", [row 1 "x", row 2 "y"]), ("b", [row 1 "z", row 3 "w"]), ("c", [row 3 "u", row 4 "t"])]
    let joined : List (Join × List Row) :=
      [(⟨.full, "b", "a.id", "b.id"⟩, [row 1 "z", row 3 "w"]), (⟨.full, "c", "b.id", "c.id"⟩, [row 3 "u", row 4 "t"])]
    ∃ shown, ((joinAll scope (Dataset.qualify "a" [row 1 "x", row 2 "y"]) joined).start []).1 = .ok shown ∧
      shown.length = 4 ∧ ∀ row ∈ shown, ∃ chosen, Chosen tables chosen ∧ row.StemsFrom scope chosen := by
  intro row scope tables joined
  have ha : Dataset.tableName "a" = "a" := by decide +kernel
  have hb : Dataset.tableName "b" = "b" := by decide +kernel
  have hc : Dataset.tableName "c" = "c" := by decide +kernel
  have htables : (Dataset.tableName "a", [row 1 "x", row 2 "y"]) :: joined.map joinedTable = tables := by
    simp only [joined, joinedTable, List.map_cons, List.map_nil, ha, hb, hc, tables]
  have hplain : ∀ t ∈ tables, ∀ r ∈ t.2, r.HasPlainColumns := by
    simp only [Row.hasPlainColumns_iff]
    decide +kernel
  have h := joinAll_stems Registry.builtin "a" [row 1 "x", row 2 "y"] joined
  rw [htables, ha] at h
  obtain ⟨shown, hshown, hstems⟩ := h (by decide) hplain []
  refine ⟨shown, hshown, ?_, hstems⟩
  have hlength : ((joinAll scope (Dataset.qualify "a" [row 1 "x", row 2 "y"]) joined).start []).1.map List.length =
      .ok 4 := by
    simp only [joined, joinAll, joinRows_eq_origins]
    decide +kernel
  rw [hshown] at hlength
  exact Except.ok.inj hlength

end JsonTables
