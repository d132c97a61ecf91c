/-
  JsonTables.Proofs.Query.SortColumn — the order by a column, beside a result that shows the column and
  one that does not.

  The value that puts a row in order is the one that the result shows under the name of the column, and
  only without such a name that of the row itself. What a result shows of null is a text, and what it
  shows of a column that is not there is that text too. So with null in the column the rows come in
  another order once the column is shown (`null_moves_when_shown`).

  Proved:
  - `evaluate_eq`: a result shows rows that come from rows of its tables, in their order.
  - `sources_eq`: that order is the one by the value of the column as it decides.
  - `sources_withColumn`: with and without the column shown the order is the same where the column has a
    value on every row, and for a qualified name always.
-/

import JsonTables.Function.Builtin
import JsonTables.Proofs.Expr.Text
import JsonTables.Proofs.Query.Order
import JsonTables.Proofs.Query.Projection
import JsonTables.Query.Execute

namespace JsonTables

open Evaluation

/-! ## The rows behind a result -/

namespace Plan

/-- The columns and the rows of a result, each row with the one it was made from. -/
def shownRows (registry : Registry) (plan : Plan) (tables : SourceTables) :
    Evaluation (List String × List Projected) := do
  let scope : Scope := ⟨registry, []⟩
  let rows ← plan.workingRows scope tables
  let columns := plan.columns registry rows
  let projected ← plan.projectedRows scope columns rows
  return (columns.map Prod.fst, plan.slice projected)

/-- The rows that the rows of a result were made from, in the order of the result. -/
def sources (registry : Registry) (plan : Plan) (tables : SourceTables) : Evaluation (List Row) := do
  return (← plan.shownRows registry tables).2.map (·.source)

theorem map_slice {α β : Type} (plan : Plan) (f : α → β) (as : List α) : (plan.slice as).map f = plan.slice (as.map f) := by
  unfold slice
  cases plan.limit <;> simp [List.map_drop, List.map_take]

/-- The plan with one more column behind its select list. -/
def withColumn (plan : Plan) (c : String) : Plan :=
  { plan with select := plan.select ++ [⟨.expr (.column c), none⟩] }

end Plan

/-! ## What decides the order -/

/-- The value of a column on a row, as an expression. -/
def sourceValue (scope : Scope) (c : String) (row : Row) : Value := (scope.resolve? row c).getD (.text c)

/-- What a result shows of a column. -/
def shownValue (scope : Scope) (c : String) (row : Row) : Value := ((scope.resolve? row c).getD .null).shown

/-- Rows in the order of a value, those that tie as they were. -/
def sortedBy (d : Direction) (value : Row → Value) (rows : List Row) : List Row :=
  rows.mergeSort fun r s => compareKeys [d] [value r] [value s] != .gt

/-- The rows of a list with what a result shows of them. -/
theorem outcome_projected (scope : Scope) (columns : List (String × ColumnSource)) (rows : List Row) :
    (rows.mapM fun r => do return (⟨← projectRow scope columns r, r⟩ : Projected)).outcome =
      rows.mapM (projectOn scope columns) >>= fun outs => .ok (List.zipWith Projected.mk outs rows) := by
  rw [outcome_mapM_zipWith (steady_projectRow scope columns), funext (outcome_projectRow scope columns)]

theorem source_of_mem {scope : Scope} {columns : List (String × ColumnSource)} {rows outs : List Row}
    (h : rows.mapM (projectOn scope columns) = .ok outs) :
    (List.zipWith Projected.mk outs rows).map (·.source) = rows ∧
      ∀ p ∈ List.zipWith Projected.mk outs rows, p.source ∈ rows ∧ projectOn scope columns p.source = .ok p.out := by
  have hall := forall₂_of_mapM h
  clear h
  induction hall with
  | nil => simp
  | @cons row out rows outs hrow _ ih =>
    refine ⟨congrArg (row :: ·) ih.1, ?_⟩
    intro p hp
    rcases List.mem_cons.mp hp with rfl | hp
    · exact ⟨List.mem_cons_self, hrow⟩
    · exact ⟨List.mem_cons_of_mem _ (ih.2 p hp).1, (ih.2 p hp).2⟩

/-- A result ordered by one expression has its rows in the order of the values that decide. -/
theorem projectedRows_sources {scope : Scope} {plan : Plan} {o : OrderItem} (horder : plan.orderBy = [o])
    (hdistinct : plan.distinct = false) {columns : List (String × ColumnSource)} {rows : List Row}
    {value : Row → Value}
    (hvalue : ∀ r ∈ rows, ∀ out, projectOn scope columns r = .ok out →
      sortValueOn scope ⟨out, r⟩ o = .ok (value r)) (journal : Journal) :
    ((plan.projectedRows scope columns rows).start journal).1.map (List.map (·.source)) =
      (rows.mapM (projectOn scope columns)).map fun _ => sortedBy o.direction value rows := by
  have hrows := steady_mapM_zipWith (steady_projectRow scope columns) Projected.mk rows
  have hprojected : plan.projectedRows scope columns rows =
      (rows.mapM fun r => do return (⟨← projectRow scope columns r, r⟩ : Projected)) >>= orderRows scope [o] := by
    simp [Plan.projectedRows, hdistinct, horder]
  rw [hprojected, start_bind_fst hrows (steady_orderRows scope [o]), outcome_projected]
  cases houts : rows.mapM (projectOn scope columns) with
  | error fault => rfl
  | ok outs =>
    obtain ⟨hsources, hmem⟩ := source_of_mem houts
    have hkeys : (List.zipWith Projected.mk outs rows).mapM (sortValuesOn scope [o]) =
        .ok ((List.zipWith Projected.mk outs rows).map fun p => [value p.source]) := by
      refine mapM_eq_map fun p hp => ?_
      have hp := hvalue p.source (hmem p hp).1 p.out (hmem p hp).2
      simp only [sortValuesOn, List.mapM_cons, List.mapM_nil, hp]
      rfl
    show (orderRows scope [o] (List.zipWith Projected.mk outs rows)).outcome.map (List.map (·.source)) = _
    rw [orderRows_outcome, hkeys]
    show Except.ok _ = Except.ok _
    rw [List.map_cons, List.map_nil, map_snd_sortByKeys]
    unfold sortedBy
    conv_rhs => rw [← hsources]
    rw [List.map_mergeSort]
    intro p _ q _
    rfl

/-! ## The plan with its column shown -/

section WithColumn

variable (registry : Registry) (plan : Plan) (c : String)

theorem aggregates_column : (Expr.column c).aggregates registry = [] := by
  simp [Expr.aggregates, Registry.isAggregateCall]

theorem windowItems_withColumn : windowItems (plan.withColumn c).select = windowItems plan.select := by
  simp [windowItems, Plan.withColumn]

theorem collectAggregates_withColumn (having : Option Predicate) (orderBy : List OrderItem) :
    collectAggregates registry (plan.withColumn c).select having orderBy =
      collectAggregates registry plan.select having orderBy := by
  simp [collectAggregates, Plan.withColumn, Selected.aggregates, aggregates_column]

theorem isGrouped_withColumn : (plan.withColumn c).isGrouped registry = plan.isGrouped registry := by
  simp [Plan.isGrouped, Plan.withColumn, Selected.aggregates, aggregates_column]

theorem workingRows_withColumn (tables : SourceTables) :
    (plan.withColumn c).workingRows ⟨registry, []⟩ tables = plan.workingRows ⟨registry, []⟩ tables := by
  have hgroup : groupRows ⟨registry, []⟩ plan.groupBy (plan.withColumn c).select plan.having plan.orderBy =
      groupRows ⟨registry, []⟩ plan.groupBy plan.select plan.having plan.orderBy := by
    funext rows
    unfold groupRows
    rw [collectAggregates_withColumn]
  have hwindows : applyWindows ⟨registry, []⟩ (plan.withColumn c).select =
      applyWindows ⟨registry, []⟩ plan.select := by
    funext rows
    unfold applyWindows
    rw [windowItems_withColumn]
  unfold Plan.workingRows
  rw [isGrouped_withColumn]
  simp only [Plan.withColumn] at hgroup hwindows ⊢
  rw [hgroup, hwindows]

theorem tables_withColumn (dataset : Dataset) :
    (plan.withColumn c).tables registry dataset = plan.tables registry dataset := by
  have hcheck : (plan.withColumn c).check registry = plan.check registry := by
    simp [Plan.check, Plan.checkPoints, Plan.withColumn, Selected.checkPoints, Expr.checkPoints]
  unfold Plan.tables
  rw [hcheck]
  rfl

theorem columns_withColumn (rows : List Row) :
    (plan.withColumn c).columns registry rows = plan.columns registry rows ++
      [(freshName ((plan.columns registry rows).map Prod.fst).reverse (leafOf c), .column c)] := by
  have hstar : (plan.withColumn c).starColumns registry rows = plan.starColumns registry rows := by
    have hhidden : (plan.withColumn c).hiddenNames registry = plan.hiddenNames registry := by
      unfold Plan.hiddenNames
      rw [windowItems_withColumn]
      exact congrArg (_ ++ Entries.keys ·) (collectAggregates_withColumn registry plan c _ _)
    unfold Plan.starColumns
    rw [hhidden]
    rfl
  have hitem : (⟨.expr (.column c), none⟩ : SelectItem).sources (plan.starColumns registry rows) =
      [(leafOf c, .column c)] := rfl
  unfold Plan.columns
  rw [hstar]
  simp only [Plan.withColumn, List.flatMap_append, List.flatMap_singleton, hitem, List.map_append, List.map_cons,
    List.map_nil]
  have hlen : (uniqueNames [] ((plan.select.flatMap fun item =>
      item.sources (plan.starColumns registry rows)).map Prod.fst)).length =
      ((plan.select.flatMap fun item => item.sources (plan.starColumns registry rows)).map Prod.snd).length := by
    rw [length_uniqueNames, List.length_map, List.length_map]
  rw [uniqueNames_concat, List.append_nil, List.zip_append hlen, List.map_fst_zip (Nat.le_of_eq hlen)]
  rfl

end WithColumn

/-! ## The order with and without the column shown -/

section Order

variable {scope : Scope} {columns : List (String × ColumnSource)} {row out : Row} {c : String} {d : Direction}

/-- A result without the name of the column is in the order of the column's value. -/
theorem sortValueOn_column (h : projectOn scope columns row = .ok out)
    (hnames : ∀ name ∈ (Expr.column c).outputNames, name ∉ columns.map Prod.fst) :
    sortValueOn scope ⟨out, row⟩ ⟨.column c, d⟩ = .ok (sourceValue scope c row) := by
  have hnone : (Expr.column c).outputNames.findSome? out.get? = none :=
    List.findSome?_eq_none_iff.mpr fun name hname => get?_projectOn_of_notMem h (hnames name hname)
  simp only [sortValueOn, hnone]
  rfl

/-- With the column shown under its own name, what it shows decides. -/
theorem sortValueOn_shown (h : projectOn scope (columns ++ [(c, .column c)]) row = .ok out) :
    sortValueOn scope ⟨out, row⟩ ⟨.column c, d⟩ = .ok (shownValue scope c row) := by
  have hget : out.get? c = some (shownValue scope c row) := by
    rw [projectOn_concat] at h
    cases hout : projectOn scope columns row with
    | error fault => rw [hout] at h; cases h
    | ok out' =>
      rw [hout] at h
      cases h
      exact (Entries.get?_insert ..).trans (if_pos rfl)
  have hsome : (Expr.column c).outputNames.findSome? out.get? = some (shownValue scope c row) := by
    simp [Expr.outputNames, hget]
  simp only [sortValueOn, hsome]

/-- No result shows a qualified name. -/
theorem freshName_notMem_outputNames (h : leafOf c ≠ c) (used : List String) :
    freshName used (leafOf c) ∉ (Expr.column c).outputNames := by
  intro hmem
  have hdot : ∀ name ∈ (Expr.column c).outputNames, '.' ∈ name.toList := by
    intro name hname
    simp only [Expr.outputNames, List.cons_append, List.nil_append, List.mem_cons, List.not_mem_nil, or_false] at hname
    rcases hname with rfl | rfl | rfl
    · exact dot_mem_of_leafOf_ne h
    · exact dot_mem_render_column h id
    · exact dot_mem_render_column h Text.lower
  exact dot_notMem_freshName (dot_notMem_leafOf c) used (hdot _ hmem)

end Order

/-- The value of a column that decides where the result shows the column behind its other ones. -/
def decidingValue (scope : Scope) (c : String) : Row → Value :=
  if leafOf c = c then shownValue scope c else sourceValue scope c

theorem sortValueOn_withColumn {scope : Scope} {columns : List (String × ColumnSource)} {c : String}
    (hnames : ∀ name ∈ (Expr.column c).outputNames, name ∉ columns.map Prod.fst) {row out : Row} {d : Direction}
    (h : projectOn scope (columns ++ [(freshName (columns.map Prod.fst).reverse (leafOf c), .column c)]) row = .ok out) :
    sortValueOn scope ⟨out, row⟩ ⟨.column c, d⟩ = .ok (decidingValue scope c row) := by
  unfold decidingValue
  split
  · rename_i hleaf
    have hnew : freshName (columns.map Prod.fst).reverse (leafOf c) = c := by
      rw [hleaf]
      exact freshName_of_notMem fun hmem => hnames c (by simp [Expr.outputNames]) (List.mem_reverse.mp hmem)
    rw [hnew] at h
    exact sortValueOn_shown h
  · rename_i hleaf
    refine sortValueOn_column h fun name hname hmem => ?_
    rw [List.map_append, List.mem_append] at hmem
    rcases hmem with hmem | hmem
    · exact hnames name hname hmem
    · rw [List.mem_singleton.mp hmem] at hname
      exact freshName_notMem_outputNames hleaf _ hname

/-- The rows behind a result that is ordered by one key. -/
theorem sources_eq {registry : Registry} {plan : Plan} {o : OrderItem} (horder : plan.orderBy = [o])
    (hdistinct : plan.distinct = false) {tables : SourceTables} {journal noted : Journal} {rows : List Row}
    (hrows : (plan.workingRows ⟨registry, []⟩ tables).start journal = (.ok rows, noted)) {value : Row → Value}
    (hvalue : ∀ r ∈ rows, ∀ out, projectOn ⟨registry, []⟩ (plan.columns registry rows) r = .ok out →
      sortValueOn ⟨registry, []⟩ ⟨out, r⟩ o = .ok (value r)) :
    ((plan.sources registry tables).start journal).1 =
      (rows.mapM (projectOn ⟨registry, []⟩ (plan.columns registry rows))).map fun _ =>
        plan.slice (sortedBy o.direction value rows) := by
  have hprojected := projectedRows_sources horder hdistinct hvalue noted
  unfold Plan.sources Plan.shownRows
  simp only [bind_assoc, pure_bind, Plan.map_slice]
  rw [start_bind, hrows]
  simp only []
  refine (start_map_fst (fun shown : List Projected => plan.slice (shown.map (·.source))) noted).trans ?_
  refine (map_map_outcome _ _ plan.slice).symm.trans ?_
  rw [hprojected, map_map_outcome]
  rfl

theorem sources_of_fault {registry : Registry} {plan : Plan} {tables : SourceTables} {journal noted : Journal}
    {fault : Fault} (hrows : (plan.workingRows ⟨registry, []⟩ tables).start journal = (.error fault, noted)) :
    ((plan.sources registry tables).start journal).1 = .error fault := by
  unfold Plan.sources Plan.shownRows
  simp only [bind_assoc]
  rw [start_bind, hrows]

theorem decidingValue_eq {scope : Scope} {c : String} {row : Row}
    (h : leafOf c = c → ∃ v, scope.resolve? row c = some v ∧ v ≠ .null) :
    decidingValue scope c row = sourceValue scope c row := by
  unfold decidingValue
  split
  · rename_i hleaf
    obtain ⟨v, hv, hnull⟩ := h hleaf
    unfold shownValue sourceValue
    rw [hv]
    cases v with
    | null => exact absurd rfl hnull
    | _ => rfl
  · rfl

theorem sortedBy_congr {d : Direction} {value value' : Row → Value} {rows : List Row}
    (h : ∀ r ∈ rows, value r = value' r) : sortedBy d value rows = sortedBy d value' rows := by
  unfold sortedBy
  have hsort := List.map_mergeSort (f := id) (l := rows)
    (r := fun r s => compareKeys [d] [value r] [value s] != .gt)
    (s := fun r s => compareKeys [d] [value' r] [value' s] != .gt) (fun r hr s hs => by rw [h r hr, h s hs]; rfl)
  simpa using hsort

/-- A column shown behind the others cannot fail. -/
theorem projections_concat (scope : Scope) (columns : List (String × ColumnSource)) (name c : String) (rows : List Row)
    {α : Type} (a : α) :
    (rows.mapM (projectOn scope (columns ++ [(name, .column c)]))).map (fun _ => a) =
      (rows.mapM (projectOn scope columns)).map fun _ => a := by
  have hproject : projectOn scope (columns ++ [(name, .column c)]) =
      fun r => do return (← projectOn scope columns r).insert name (shownValue scope c r) :=
    funext fun r => projectOn_concat scope columns name (.column c) r
  rw [hproject, mapM_zipWith (projectOn scope columns) fun out r => out.insert name (shownValue scope c r)]
  cases rows.mapM (projectOn scope columns) <;> rfl

section Sources

variable {registry : Registry} {plan : Plan} {c : String} {d : Direction} {tables : SourceTables}
  {journal noted : Journal} {rows : List Row}

/-- Without the column shown the rows come in the order of its own values. -/
theorem sources_plain (horder : plan.orderBy = [⟨.column c, d⟩]) (hdistinct : plan.distinct = false)
    (hrows : (plan.workingRows ⟨registry, []⟩ tables).start journal = (.ok rows, noted))
    (hnames : ∀ name ∈ (Expr.column c).outputNames, name ∉ (plan.columns registry rows).map Prod.fst) :
    ((plan.sources registry tables).start journal).1 =
      (rows.mapM (projectOn ⟨registry, []⟩ (plan.columns registry rows))).map fun _ =>
        plan.slice (sortedBy d (sourceValue ⟨registry, []⟩ c) rows) :=
  sources_eq horder hdistinct hrows fun _ _ _ hout => sortValueOn_column hout hnames

/-- With the column shown they come in the order of the values that decide. -/
theorem sources_shown (horder : plan.orderBy = [⟨.column c, d⟩]) (hdistinct : plan.distinct = false)
    (hrows : (plan.workingRows ⟨registry, []⟩ tables).start journal = (.ok rows, noted))
    (hnames : ∀ name ∈ (Expr.column c).outputNames, name ∉ (plan.columns registry rows).map Prod.fst) :
    (((plan.withColumn c).sources registry tables).start journal).1 =
      (rows.mapM (projectOn ⟨registry, []⟩ (plan.columns registry rows))).map fun _ =>
        plan.slice (sortedBy d (decidingValue ⟨registry, []⟩ c) rows) := by
  have horder' : (plan.withColumn c).orderBy = [⟨.column c, d⟩] := horder
  have hdistinct' : (plan.withColumn c).distinct = false := hdistinct
  have hrows' : ((plan.withColumn c).workingRows ⟨registry, []⟩ tables).start journal = (.ok rows, noted) := by
    rw [workingRows_withColumn, hrows]
  have hcolumns := columns_withColumn registry plan c rows
  have hvalue : ∀ r ∈ rows, ∀ out, projectOn ⟨registry, []⟩ ((plan.withColumn c).columns registry rows) r = .ok out →
      sortValueOn ⟨registry, []⟩ ⟨out, r⟩ ⟨.column c, d⟩ = .ok (decidingValue ⟨registry, []⟩ c r) := by
    intro r _ out hout
    rw [hcolumns] at hout
    exact sortValueOn_withColumn hnames hout
  refine (sources_eq horder' hdistinct' hrows' hvalue).trans ?_
  rw [hcolumns]
  exact projections_concat _ _ _ c rows _

end Sources

/-- A plan ordered by a column that is not shown, and the same plan with the column shown behind its other
columns: they find the same tables and the same rows and fail alike. The rows come in the order of the
column's own value, and in that of what the result shows of the column unless its name is qualified. So
their order is the same where the name is qualified or the column has a value on every row. -/
theorem sources_withColumn (registry : Registry) (plan : Plan) (c : String) (d : Direction)
    (horder : plan.orderBy = [⟨.column c, d⟩]) (hdistinct : plan.distinct = false) (tables : SourceTables)
    (journal : Journal) :
    let scope : Scope := ⟨registry, []⟩
    let sources (p : Plan) := ((p.sources registry tables).start journal).1
    (∀ dataset, (plan.withColumn c).tables registry dataset = plan.tables registry dataset) ∧
    (∀ fault noted, (plan.workingRows scope tables).start journal = (.error fault, noted) →
      sources plan = .error fault ∧ sources (plan.withColumn c) = .error fault) ∧
    ∀ rows noted, (plan.workingRows scope tables).start journal = (.ok rows, noted) →
      (∀ name ∈ (Expr.column c).outputNames, name ∉ (plan.columns registry rows).map Prod.fst) →
      let projected := rows.mapM (projectOn scope (plan.columns registry rows))
      sources plan = projected.map (fun _ => plan.slice (sortedBy d (sourceValue scope c) rows)) ∧
      sources (plan.withColumn c) = projected.map (fun _ => plan.slice (sortedBy d (decidingValue scope c) rows)) ∧
      ((leafOf c = c → ∀ r ∈ rows, ∃ v, scope.resolve? r c = some v ∧ v ≠ .null) →
        sources (plan.withColumn c) = sources plan) := by
  intro scope sources
  refine ⟨tables_withColumn registry plan c, ?_, ?_⟩
  · intro fault noted hrows
    have hrows' : ((plan.withColumn c).workingRows scope tables).start journal = (.error fault, noted) := by
      rw [workingRows_withColumn, hrows]
    exact ⟨sources_of_fault hrows, sources_of_fault hrows'⟩
  · intro rows noted hrows hnames projected
    have hplain : sources plan = projected.map fun _ => plan.slice (sortedBy d (sourceValue scope c) rows) :=
      sources_plain horder hdistinct hrows hnames
    have hshown : sources (plan.withColumn c) =
        projected.map fun _ => plan.slice (sortedBy d (decidingValue scope c) rows) :=
      sources_shown horder hdistinct hrows hnames
    refine ⟨hplain, hshown, fun hvalues => ?_⟩
    rw [hplain, hshown, sortedBy_congr fun r hr => decidingValue_eq fun hleaf => hvalues hleaf r hr]

/-! ## Two rows -/

theorem sortedBy_pair (d : Direction) (value : Row → Value) (r s : Row) :
    sortedBy d value [r, s] = if compareKeys [d] [value r] [value s] != .gt then [r, s] else [s, r] :=
  mergeSort_pair _ r s

/-- The column `a` of a table in the order of its column `c`. -/
def listByColumn (d : Direction) : Plan :=
  { Plan.blank with select := [⟨.expr (.column "a"), none⟩], table := "t", orderBy := [⟨.column "c", d⟩] }

/-- A table of two rows with these values in the column `c`. -/
def twoRows (v w : Value) : List Row :=
  [Row.ofList [("a", Value.ofInt 1), ("c", v)], Row.ofList [("a", Value.ofInt 2), ("c", w)]]

theorem workingRows_listByColumn (d : Direction) (rows : List Row) :
    ((listByColumn d).workingRows ⟨Registry.builtin, []⟩ ⟨rows, []⟩).start [] =
      (.ok (Dataset.qualify "t" rows), [.base "t" (Dataset.qualify "t" rows).length]) := by
  have htable : Dataset.tableName "t" = "t" := by decide +kernel
  have hplain : (listByColumn d).isGrouped Registry.builtin = false := rfl
  have hwindows : windowItems (listByColumn d).select = [] := rfl
  unfold Plan.workingRows applyWindows
  rw [hplain, hwindows]
  show (do
    Evaluation.note (.base "t" (Dataset.qualify (Dataset.tableName "t") rows).length)
    pure (Dataset.qualify (Dataset.tableName "t") rows) : Evaluation _).start [] = _
  rw [htable]
  rfl

theorem notMem_columns_listByColumn (d : Direction) (rows : List Row) :
    ∀ name ∈ (Expr.column "c").outputNames, name ∉ ((listByColumn d).columns Registry.builtin rows).map Prod.fst := by
  have hcolumns : ((listByColumn d).columns Registry.builtin rows).map Prod.fst = ["a"] := rfl
  rw [hcolumns]
  decide +kernel

/-- Two rows with texts in the column come in one order, whether it is shown or not. -/
theorem sources_withColumn_texts :
    let tables : SourceTables := ⟨twoRows (.text "b") (.text "d"), []⟩
    ((((listByColumn .descending).withColumn "c").sources Registry.builtin tables).start []).1 =
      (((listByColumn .descending).sources Registry.builtin tables).start []).1 := by
  intro tables
  have hvalues : ∀ r ∈ Dataset.qualify "t" (twoRows (.text "b") (.text "d")),
      ((⟨Registry.builtin, []⟩ : Scope).resolve? r "c").any (· ≠ .null) = true := by decide +kernel
  obtain ⟨_, _, h⟩ := sources_withColumn Registry.builtin (listByColumn .descending) "c" .descending rfl rfl tables []
  refine (h _ _ (workingRows_listByColumn ..) (notMem_columns_listByColumn _ _)).2.2 fun _ r hr => ?_
  obtain ⟨v, hv, hnull⟩ := (Option.any_eq_true _ _).mp (hvalues r hr)
  exact ⟨v, hv, of_decide_eq_true hnull⟩

/-- With null in the column, a row is before one with the text `b`, and behind it once the column is shown,
as what is shown of null is a text. -/
theorem null_moves_when_shown :
    let sources (p : Plan) :=
      ((p.sources Registry.builtin ⟨twoRows .null (.text "b"), []⟩).start []).1.map (List.map (·.get? "a"))
    sources (listByColumn .ascending) = .ok [some (Value.ofInt 1), some (Value.ofInt 2)] ∧
      sources ((listByColumn .ascending).withColumn "c") = .ok [some (Value.ofInt 2), some (Value.ofInt 1)] := by
  intro sources
  have hplain := sources_plain rfl rfl (workingRows_listByColumn .ascending (twoRows .null (.text "b")))
    (notMem_columns_listByColumn _ _)
  have hshown := sources_shown rfl rfl (workingRows_listByColumn .ascending (twoRows .null (.text "b")))
    (notMem_columns_listByColumn _ _)
  have hrows : Dataset.qualify "t" (twoRows .null (.text "b")) = [_, _] := rfl
  constructor
  · show Except.map _ _ = _
    rw [hplain, hrows, sortedBy_pair]
    decide +kernel
  · show Except.map _ _ = _
    rw [hshown, hrows, sortedBy_pair]
    decide +kernel

end JsonTables
