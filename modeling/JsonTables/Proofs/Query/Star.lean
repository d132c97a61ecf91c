/-
  JsonTables.Proofs.Query.Star — a star over one table shows the table.

  The rows of a table first get every column a second time, with the name of the table and a dot in front. The star
  leaves out every column whose name begins so. Where no column of the table itself begins so, these are just the
  second columns, and all columns of the table are left, whatever dots they have and whatever other tables they seem
  to belong to.

  Proved:
  - `isQualifiedBy_iff`: a column is qualified by a table if its name begins with the table's and a dot.
  - `starColumns_selectStar`: the star stands for the columns of the table.
  - `execute_selectStar`: `SELECT *` on a table shows the table.
-/

import JsonTables.Proofs.Dataset.Paths
import JsonTables.Proofs.Qualified
import JsonTables.Proofs.Query.Results

namespace JsonTables

open Evaluation

/-! ## The names of tables -/

/-- A path that leads to a table has a segment that counts, and by the last of them the table goes. -/
theorem Dataset.isPlain_tableName {d : Dataset} {path : String} (h : d.HasTable path) : IsPlain (tableName path) := by
  cases hsegments : segments path with
  | nil =>
    obtain ⟨items, hleads, -⟩ := h
    rw [leads_iff, route, hsegments] at hleads
    cases hleads
  | cons first rest =>
    have hlast : tableName path ∈ segments path := by
      rw [tableName, hsegments, List.getLastD_eq_getLast?, List.getLast?_eq_some_getLast (List.cons_ne_nil _ _)]
      exact List.getLast_mem _
    exact ((spells_iff.mpr rfl).1 _ hlast).noDot

/-! ## Qualified columns -/

/-- A column is qualified by a table if its name begins with the name of the table and a dot. -/
theorem isQualifiedBy_iff {table key : String} (h : IsPlain table) :
    isQualifiedBy [table] key = true ↔ (table ++ ".").toList <+: key.toList := by
  have hdot : (table ++ ".").toList = table.toList ++ ['.'] := by simp
  unfold isQualifiedBy
  simp only [Bool.and_eq_true, decide_eq_true_eq, List.contains_iff_mem, List.mem_singleton, hdot]
  constructor
  · rintro ⟨hlength, rfl⟩
    have hsplit : key.toList.takeWhile (· ≠ '.') ++ key.toList.dropWhile (· ≠ '.') = key.toList :=
      List.takeWhile_append_dropWhile
    cases hdrop : key.toList.dropWhile (· ≠ '.') with
    | nil =>
      rw [hdrop, List.append_nil] at hsplit
      rw [hsplit, String.length_toList] at hlength
      omega
    | cons c rest =>
      obtain rfl : c = '.' := by
        have hhead := List.head?_dropWhile_not (· ≠ '.') key.toList
        rw [hdrop] at hhead
        simpa using hhead
      refine ⟨rest, ?_⟩
      rw [String.toList_ofList, List.append_assoc, List.singleton_append, ← hdrop]
      exact hsplit
  · rintro ⟨rest, hrest⟩
    have hfront : key.toList.takeWhile (· ≠ '.') = table.toList := by
      have hkeep : ∀ c ∈ table.toList, decide (c ≠ '.') = true := by
        intro c hc
        have hne : c ≠ '.' := fun heq => h (heq ▸ hc)
        simpa using hne
      rw [← hrest, List.append_assoc, List.takeWhile_append_of_pos hkeep]
      simp
    rw [hfront]
    refine ⟨?_, String.ofList_toList⟩
    have hlength : key.length = key.toList.length := String.length_toList.symm
    rw [hlength, ← hrest]
    simp

/-- The columns of rows under both names that are not qualified by the table are the columns of the rows. -/
theorem filter_columnUnion_qualified {table : String} {rows : List Row} (hplain : IsPlain table)
    (hnames : ∀ r ∈ rows, ∀ c ∈ r.keys, ¬ (table ++ ".").toList <+: c.toList) :
    (columnUnion (rows.map (Row.qualified table))).filter (fun key => !isQualifiedBy [table] key) = columnUnion rows := by
  have hown : ∀ r ∈ rows, (r.qualified table).keys.filter (fun key => !isQualifiedBy [table] key) =
      r.keys.filter fun key => !isQualifiedBy [table] key := by
    intro r _
    refine Row.filter_keys_setAll r fun key hkey => ?_
    obtain ⟨c, -, rfl⟩ := Entries.mem_keys_qualified.mp hkey
    rw [(isQualifiedBy_iff hplain).mpr ⟨c.toList, by simp [qualifiedName]⟩]
    rfl
  have hsame : (columnUnion (rows.map (Row.qualified table))).filter (fun key => !isQualifiedBy [table] key) =
      (columnUnion (rows.map id)).filter fun key => !isQualifiedBy [table] key := filter_columnUnion_congr hown
  rw [hsame, List.map_id]
  refine List.filter_eq_self.mpr fun key hkey => ?_
  obtain ⟨r, hr, hcontains⟩ := mem_columnUnion.mp hkey
  rw [Bool.not_eq_true', ← Bool.not_eq_true, isQualifiedBy_iff hplain]
  exact hnames r hr key ((Row.contains_iff r key).mp hcontains)

/-- Under a name that is not qualified by the table a row under both names has what it had. -/
theorem Row.get?_qualified_of_not_prefix {table key : String} (r : Row)
    (h : ¬ (table ++ ".").toList <+: key.toList) : (r.qualified table).get? key = r.get? key := by
  refine r.get?_qualified_of_forall_ne fun c _ heq => h ?_
  rw [heq]
  exact ⟨c.toList, by simp [qualifiedName]⟩

/-! ## The star over one table -/

/-- `SELECT *` on the table at a path. -/
def selectStar (path : String) : Plan := { Plan.blank with select := [⟨.star, none⟩], table := path }

section Star

variable {registry : Registry} {path : String} {rows : List Row}

/-- The star stands for the columns of the table. -/
theorem starColumns_selectStar (hplain : IsPlain (Dataset.tableName path))
    (hnames : ∀ r ∈ rows, ∀ c ∈ r.keys, ¬ (Dataset.tableName path ++ ".").toList <+: c.toList) :
    (selectStar path).starColumns registry (Dataset.qualify (Dataset.tableName path) rows) = columnUnion rows := by
  have hhidden : (selectStar path).hiddenNames registry = [] := rfl
  have htables : (selectStar path).tableNames = [Dataset.tableName path] := rfl
  rw [← filter_columnUnion_qualified hplain hnames]
  unfold Plan.starColumns
  simp only [hhidden, htables, List.contains_nil, Bool.not_false, Bool.and_true]
  rfl

/-- The columns of the result are those of the table, under their own names. -/
theorem columns_selectStar (hplain : IsPlain (Dataset.tableName path))
    (hnames : ∀ r ∈ rows, ∀ c ∈ r.keys, ¬ (Dataset.tableName path ++ ".").toList <+: c.toList) :
    (selectStar path).columns registry (Dataset.qualify (Dataset.tableName path) rows) =
      (columnUnion rows).map fun key => (key, .starred key) := by
  unfold Plan.columns
  have hsources : ((selectStar path).select.flatMap fun item => item.sources
      ((selectStar path).starColumns registry (Dataset.qualify (Dataset.tableName path) rows))) =
      (columnUnion rows).map fun key => (key, ColumnSource.starred key) := by
    rw [starColumns_selectStar hplain hnames]
    exact List.append_nil _
  -- No column comes twice, so none gets a number behind its name.
  have hnew : uniqueNames [] (columnUnion rows) = columnUnion rows :=
    uniqueNames_of_nodup (nodup_columnUnion rows) fun _ _ => List.not_mem_nil
  simp only [hsources, List.map_map, Function.comp_def, List.map_id', hnew]
  have hzip : ((columnUnion rows).map id).zip ((columnUnion rows).map fun key => ColumnSource.starred key) =
      (columnUnion rows).map fun key => (key, .starred key) := List.zip_map'
  rwa [List.map_id] at hzip

/-- What the star shows of a row: every column, with the value of the row where it has one that is not null, and the
marker elsewhere. -/
structure Row.ShowsAll (columns : List String) (r out : Row) : Prop where
  keys : out.keys = columns
  value : ∀ c ∈ columns, ∀ v, r.get? c = some v → v ≠ .null → out.get? c = some v
  marker : ∀ c ∈ columns, r.get? c = none ∨ r.get? c = some .null → out.get? c = some (.text "NULL")

/-- A row with all columns and without null shows as itself. -/
theorem Row.ShowsAll.eq_self {columns : List String} {r out : Row} (h : r.ShowsAll columns out) (hkeys : r.keys = columns)
    (hnull : ∀ e ∈ r.entries, e.2 ≠ .null) : out = r := by
  have hsame : out.entries = r.entries := by
    refine Entries.eq_of_keys_eq out.nodup (h.keys.trans hkeys.symm) fun key hkey => ?_
    have hcolumn : key ∈ columns := h.keys ▸ hkey
    have hown : key ∈ r.keys := hkeys.symm ▸ hcolumn
    obtain ⟨e, he, rfl⟩ := List.mem_map.mp hown
    have hget : r.get? e.1 = some e.2 := Entries.get?_of_mem r.nodup he
    exact (h.value e.1 hcolumn e.2 hget (hnull e he)).trans hget.symm
  cases out
  cases r
  simpa using hsame

/-- The row that shows these columns of a row. -/
def Row.starred (columns : List String) (r : Row) : Row :=
  Row.ofList (columns.map fun key => (key, ((r.get? key).getD .null).shown))

/-- Nothing is evaluated for the columns that the star stands for. -/
theorem projectRow_starred (scope : Scope) (columns : List String) (r : Row) :
    projectRow scope (columns.map fun key => (key, .starred key)) r = pure (r.starred columns) := by
  have hentry (key : String) : projectEntry scope r (key, .starred key) =
      pure (key, ((r.get? key).getD .null).shown) := rfl
  show ((columns.map fun key => (key, ColumnSource.starred key)).mapM (projectEntry scope r) >>= fun entries =>
    pure (Row.ofList entries)) = _
  rw [List.mapM_map]
  simp only [Function.comp_def, hentry, List.mapM_pure, pure_bind]
  rfl

theorem Row.showsAll_starred {columns : List String} (hcolumns : columns.Nodup) {r source : Row}
    (hsource : ∀ c ∈ columns, source.get? c = r.get? c) : r.ShowsAll columns (source.starred columns) := by
  have hproject : projectOn ⟨Registry.empty, []⟩ (columns.map fun key => (key, .starred key)) source =
      .ok (source.starred columns) := by
    rw [← outcome_projectRow, projectRow_starred]
    rfl
  have hnames : ((columns.map fun key => (key, ColumnSource.starred key)).map Prod.fst) = columns := by
    simp [Function.comp_def]
  have hshows := shows_of_projectOn (hnames.symm ▸ hcolumns) hproject
  have hcell : ∀ c ∈ columns, (source.starred columns).get? c = some ((r.get? c).getD .null).shown := by
    intro c hc
    obtain ⟨v, hv, hget⟩ := hshows.cells (c, .starred c) (List.mem_map_of_mem hc)
    cases hv
    rw [hget, hsource c hc]
  refine ⟨hshows.keys.trans hnames, ?_, ?_⟩
  · intro c hc v hv hnull
    rw [hcell c hc, hv, Option.getD_some, Value.shown_eq, if_neg hnull]
  · intro c hc hnone
    rw [hcell c hc]
    rcases hnone with hnone | hnull
    · rw [hnone]
      rfl
    · rw [hnull]
      rfl

/-- The star over the rows of a table comes to what it shows of each, with a note of how many there are. -/
theorem reaches_selectStar {d : Dataset} (registry : Registry) (h : d.table path = .ok rows)
    (hnames : ∀ r ∈ rows, ∀ c ∈ r.keys, ¬ (Dataset.tableName path ++ ".").toList <+: c.toList) :
    let qualified := Dataset.qualify (Dataset.tableName path) rows
    (selectStar path).Reaches registry d qualified
      (qualified.map fun r => ⟨r.starred (columnUnion rows), r⟩) [.base path qualified.length] := by
  intro qualified
  have hplain : IsPlain (Dataset.tableName path) := Dataset.isPlain_tableName (Dataset.hasTable_iff.mpr ⟨rows, h⟩)
  have htables : (selectStar path).tables registry d = .ok ⟨rows, []⟩ := by
    unfold Plan.tables
    have hcheck : (selectStar path).check registry = .ok () := rfl
    rw [hcheck]
    show (d.table path >>= fun base => _) = _
    rw [h]
    rfl
  have hworking : ((selectStar path).workingRows ⟨registry, []⟩ ⟨rows, []⟩).start [] =
      (.ok qualified, [.base path qualified.length]) := by
    rfl
  refine ⟨⟨rows, []⟩, _, htables, hworking, ?_⟩
  rw [columns_selectStar hplain hnames]
  unfold Plan.projectedRows
  simp only [projectRow_starred, pure_bind, List.mapM_pure]
  rfl

/-- `SELECT *` on a table with no column whose name begins with the table's and a dot shows the table: its columns in
the order in which they first appear, and its rows in their order, each with every column. Where all rows have the same
columns and none has a null, these are the rows themselves. -/
theorem execute_selectStar {d : Dataset} (registry : Registry) (h : d.table path = .ok rows)
    (hnames : ∀ r ∈ rows, ∀ c ∈ r.keys, ¬ (Dataset.tableName path ++ ".").toList <+: c.toList) :
    ∃ result journal, (selectStar path).execute registry d = .ok (.ok result, journal) ∧
      result.columns = (rows.flatMap Row.keys).eraseDups ∧
      List.Forall₂ (Row.ShowsAll result.columns) rows result.rows ∧
      (∀ columns, (∀ r ∈ rows, r.keys = columns ∧ ∀ e ∈ r.entries, e.2 ≠ .null) → result.rows = rows) ∧
      result.output = none ∧ result.paginate = false ∧ result.warnings = [] := by
  have hplain : IsPlain (Dataset.tableName path) := Dataset.isPlain_tableName (Dataset.hasTable_iff.mpr ⟨rows, h⟩)
  have hreaches := reaches_selectStar registry h hnames
  refine ⟨_, _, Plan.execute_eq_ok.mpr ⟨_, _, _, hreaches, rfl, rfl⟩, ?_⟩
  set result := Plan.resultFrom registry (selectStar path) _ _ _
  have hcolumns : result.columns = columnUnion rows := by
    show ((selectStar path).columns registry _).map Prod.fst = _
    rw [columns_selectStar hplain hnames]
    simp [Function.comp_def]
  let shown (r : Row) : Row := (r.qualified (Dataset.tableName path)).starred (columnUnion rows)
  have hrows : result.rows = rows.map shown := by
    show ((rows.map _).map _).map Projected.out = _
    rw [List.map_map, List.map_map]
    rfl
  have hshows : ∀ r ∈ rows, r.ShowsAll result.columns (shown r) := by
    intro r _
    rw [hcolumns]
    refine Row.showsAll_starred (nodup_columnUnion rows) fun c hc => ?_
    obtain ⟨other, hother, hcontains⟩ := mem_columnUnion.mp hc
    exact r.get?_qualified_of_not_prefix (hnames other hother c ((Row.contains_iff other c).mp hcontains))
  refine ⟨hcolumns.trans (columnUnion_eq rows), ?_, ?_, rfl, rfl, rfl⟩
  · rw [hrows, List.forall₂_map_right_iff]
    exact List.forall₂_same.mpr hshows
  · intro columns hsame
    by_cases hne : rows = []
    · rw [hrows, hne]
      rfl
    · have hown : result.columns = columns := hcolumns.trans (columnUnion_of_same hne fun r hr => (hsame r hr).1)
      have hself : ∀ r ∈ rows, shown r = r := by
        intro r hr
        obtain ⟨hkeys, hnull⟩ := hsame r hr
        exact (hshows r hr).eq_self (hkeys.trans hown.symm) hnull
      rw [hrows, List.map_congr_left hself]
      exact List.map_id _

/-- Each row lacks a column of the other, and a column that both have looks like one of another table. -/
theorem execute_selectStar_ragged :
    let d : Dataset := ⟨[("t", .list [.map [("a", .text "x"), ("u.b", .null)], .map [("u.b", .text "y"), ("c", .text "z")]])]⟩
    ∃ rows, d.table "$.t" = .ok rows ∧
      (∀ r ∈ rows, ∀ c ∈ r.keys, ¬ (Dataset.tableName "$.t" ++ ".").toList <+: c.toList) ∧
      ∃ result journal, (selectStar "$.t").execute Registry.builtin d = .ok (.ok result, journal) ∧
        result.columns = ["a", "u.b", "c"] ∧ List.Forall₂ (Row.ShowsAll result.columns) rows result.rows := by
  intro d
  have htable : d.table "$.t" = .ok [Row.ofList [("a", .text "x"), ("u.b", .null)],
    Row.ofList [("u.b", .text "y"), ("c", .text "z")]] := by rfl
  have hnames : ∀ r ∈ [Row.ofList [("a", .text "x"), ("u.b", .null)], Row.ofList [("u.b", .text "y"), ("c", .text "z")]],
      ∀ c ∈ r.keys, ¬ (Dataset.tableName "$.t" ++ ".").toList <+: c.toList := by decide +kernel
  obtain ⟨result, journal, hrun, hcolumns, hrows, -⟩ := execute_selectStar Registry.builtin htable hnames
  refine ⟨_, htable, hnames, result, journal, hrun, ?_, hrows⟩
  rw [hcolumns]
  decide +kernel

end Star

end JsonTables
