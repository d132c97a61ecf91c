/-
  JsonTables.Proofs.Query.Windows — the windows of a plan beside the other items of its select list.

  The ranks of a window are written into the rows under the name of its item, and the result reads them back
  by that name. So windows share one set of names with each other, with the columns of the rows and with the
  star: a window takes the place of an earlier one of its name, of a column that another item reads, and of a
  column that the star stands for (`rank_takes_place_of_column`). The windows themselves see the rows as they
  were before.

  Proved:
  - `workingRows_eq`: a plan ranks the rows that it has without its windows.
  - `columns_ranked`: the ranks that stand in the rows do not change the columns of the result.
  - `valueOn_rankedRow`: a source that no rank comes before has the value that it has without ranks.
  - `shown_beside_windows`: what a plan shows with its windows, beside what it shows without them.
-/

import JsonTables.Function.Builtin
import JsonTables.Proofs.Expr.Names
import JsonTables.Proofs.Query.Projection
import JsonTables.Proofs.Query.SortColumn
import JsonTables.Proofs.Window

namespace JsonTables

open Evaluation

/-! ## The plan without its windows -/

def Selected.isWindow : Selected → Bool
  | window _ => true
  | _ => false

namespace Plan

def withoutWindows (plan : Plan) : Plan :=
  { plan with select := plan.select.filter fun item => !item.content.isWindow }

/-- The names under which the ranks of a plan stand, one for each window. -/
def rankNames (plan : Plan) : List String := (windowItems plan.select).map Prod.fst

/-- Neither the items of the select list nor the windows in it hold aggregate calls. -/
def SelectsPlain (registry : Registry) (plan : Plan) : Prop :=
  ∀ item ∈ plan.select, item.content.aggregates registry = []

end Plan

section Without

variable {registry : Registry} {plan : Plan}

theorem windowItems_withoutWindows (plan : Plan) : windowItems plan.withoutWindows.select = [] := by
  refine List.filterMap_eq_nil_iff.mpr fun item hitem => ?_
  have hkept : item.content.isWindow = false := by simpa using (List.mem_filter.mp hitem).2
  cases hcontent : item.content with
  | window w => rw [hcontent] at hkept; cases hkept
  | _ => rfl

theorem Plan.SelectsPlain.withoutWindows (h : plan.SelectsPlain registry) : plan.withoutWindows.SelectsPlain registry :=
  fun item hitem => h item (List.mem_filter.mp hitem).1

theorem Plan.SelectsPlain.flatMap_aggregates (h : plan.SelectsPlain registry) :
    (plan.select.flatMap fun item => item.content.aggregates registry) = [] :=
  List.flatMap_eq_nil_iff.mpr h

theorem collectAggregates_withoutWindows (h : plan.SelectsPlain registry) (having : Option Predicate)
    (orderBy : List OrderItem) :
    collectAggregates registry plan.withoutWindows.select having orderBy =
      collectAggregates registry plan.select having orderBy := by
  unfold collectAggregates
  rw [h.flatMap_aggregates, h.withoutWindows.flatMap_aggregates]

theorem isGrouped_withoutWindows (h : plan.SelectsPlain registry) :
    plan.withoutWindows.isGrouped registry = plan.isGrouped registry := by
  have hany : ∀ p : Plan, p.SelectsPlain registry →
      p.select.any (fun item => !(item.content.aggregates registry).isEmpty) = false := by
    intro p hp
    refine List.any_eq_false.mpr fun item hitem => ?_
    simp [hp item hitem]
  unfold Plan.isGrouped
  rw [hany _ h, hany _ h.withoutWindows]
  rfl

/-- The rows of a plan are those that it has without windows, ranked. -/
theorem workingRows_eq {scope : Scope} (h : plan.SelectsPlain scope.registry) (tables : SourceTables) :
    plan.workingRows scope tables = plan.withoutWindows.workingRows scope tables >>= applyWindows scope plan.select := by
  have hgroup : groupRows scope plan.withoutWindows.groupBy plan.withoutWindows.select plan.withoutWindows.having
      plan.withoutWindows.orderBy = groupRows scope plan.groupBy plan.select plan.having plan.orderBy := by
    funext rows
    unfold groupRows
    rw [collectAggregates_withoutWindows h]
    rfl
  have hbare : applyWindows scope plan.withoutWindows.select = pure := by
    funext rows
    unfold applyWindows
    rw [windowItems_withoutWindows]
    rfl
  unfold Plan.workingRows
  rw [hbare, isGrouped_withoutWindows h, hgroup]
  -- Both branches end in the same steps, so each is put together by itself.
  by_cases hgrouped : plan.isGrouped scope.registry = true
  · simp only [hgrouped, if_true, bind_assoc, pure_bind]
    rfl
  · simp only [hgrouped, Bool.false_eq_true, if_false, bind_assoc, pure_bind]
    rfl

/-- A plan that passes its check passes it without its windows, and finds the same tables. -/
theorem tables_withoutWindows {dataset : Dataset} {tables : SourceTables} (h : plan.tables registry dataset = .ok tables) :
    plan.withoutWindows.tables registry dataset = .ok tables := by
  have hcheck : plan.check registry = .ok () → plan.withoutWindows.check registry = .ok () := by
    unfold Plan.check
    cases hfault : plan.checkPoints.findSome? (CheckPoint.fault? registry) with
    | some fault => intro h; cases h
    | none =>
      intro _
      have hbare : plan.withoutWindows.checkPoints.findSome? (CheckPoint.fault? registry) = none := by
        rw [List.findSome?_eq_none_iff] at hfault ⊢
        intro point hpoint
        refine hfault point ?_
        simp only [Plan.checkPoints, List.mem_append, List.mem_flatMap, Plan.withoutWindows, List.mem_filter] at hpoint ⊢
        refine hpoint.imp_left (Or.imp_left (Or.imp_left (Or.imp_left ?_)))
        rintro ⟨item, ⟨hitem, -⟩, hmem⟩
        exact ⟨item, hitem, hmem⟩
      rw [hbare]
  unfold Plan.tables at h ⊢
  cases hplan : plan.check registry with
  | error fault => rw [hplan] at h; cases h
  | ok _ =>
    rw [hplan] at h
    rw [hcheck hplan]
    exact h

end Without

/-! ## The columns of the result -/

namespace ColumnSource

def isRank : ColumnSource → Bool
  | rank _ => true
  | _ => false

/-- The star stands for a column of one of these names. -/
def hiddenBy (names : List String) : ColumnSource → Bool
  | starred key => names.contains key
  | _ => false

/-- The source holds no aggregate call. -/
def Plain (registry : Registry) : ColumnSource → Prop
  | expr e => e.aggregates registry = []
  | _ => True

/-- Columns of these names, set in the row, do not come before what the source reads. -/
def Spared (row : Row) (names : List String) : ColumnSource → Prop
  | starred key => key ∉ names
  | rank _ => False
  | column name => row.Spares names name
  | expr e => ∀ name ∈ e.columnNames, row.Spares names name

end ColumnSource

/-- The columns of windows. -/
def rankColumns (columns : List (String × ColumnSource)) : List (String × ColumnSource) :=
  columns.filter fun c => c.2.isRank

def otherColumns (columns : List (String × ColumnSource)) : List (String × ColumnSource) :=
  columns.filter fun c => !c.2.isRank

section Sources

variable {registry : Registry} {plan : Plan} {rows : List Row}

theorem isRank_of_comesFrom {source : ColumnSource} {content : Selected} {stars : List String}
    (h : source.ComesFrom content stars) : source.isRank = content.isWindow := by
  cases source with
  | starred key =>
    obtain ⟨rfl, -⟩ := h
    rfl
  | rank name =>
    obtain ⟨w, rfl⟩ := h
    rfl
  | column name =>
    obtain rfl : content = .expr (.column name) := h
    rfl
  | expr e =>
    obtain rfl : content = .expr e := h
    rfl

theorem isRank_of_mem {item : SelectItem} {stars : List String} {c : String × ColumnSource} (h : c ∈ item.sources stars) :
    c.2.isRank = item.content.isWindow := isRank_of_comesFrom (comesFrom_of_mem h)

/-- What is asked of the sources can be asked of the items. -/
theorem filter_sources (select : List SelectItem) (stars : List String) (p : Bool → Bool) :
    (select.flatMap (·.sources stars)).filter (fun c => p c.2.isRank) =
      (select.filter fun item => p item.content.isWindow).flatMap (·.sources stars) := by
  induction select with
  | nil => rfl
  | cons item select ih =>
    rw [List.flatMap_cons, List.filter_append, ih, List.filter_cons]
    have hitem : (item.sources stars).filter (fun c => p c.2.isRank) =
        (item.sources stars).filter fun _ => p item.content.isWindow :=
      List.filter_congr fun c hc => by rw [isRank_of_mem hc]
    rw [hitem]
    by_cases hp : p item.content.isWindow = true
    · simp [hp]
    · simp [hp]

theorem sources_windows (select : List SelectItem) (stars : List String) :
    (select.filter fun item => item.content.isWindow).flatMap (·.sources stars) =
      (windowItems select).map fun x => (x.1, .rank x.1) := by
  induction select with
  | nil => rfl
  | cons item select ih =>
    unfold windowItems at ih ⊢
    rw [List.filter_cons, List.filterMap_cons]
    cases hcontent : item.content with
    | window w =>
      have hsources : item.sources stars = [(item.outputName, .rank item.outputName)] := by
        unfold SelectItem.sources
        rw [hcontent]
      have hwindow : (Selected.window w).isWindow = true := rfl
      rw [if_pos hwindow, List.flatMap_cons, hsources, ih]
      rfl
    | star => exact ih
    | expr e => exact ih

theorem sources_filter (item : SelectItem) (stars names : List String) :
    item.sources (stars.filter fun key => !names.contains key) =
      (item.sources stars).filter fun c => !c.2.hiddenBy names := by
  unfold SelectItem.sources
  split
  · rw [List.filter_map]
    rfl
  all_goals rfl

/-- The star stands for the columns that it stands for without windows, less those of a window's name. -/
theorem starColumns_eq (h : plan.SelectsPlain registry) :
    plan.starColumns registry rows =
      (plan.withoutWindows.starColumns registry rows).filter fun key => !plan.rankNames.contains key := by
  have hhidden : plan.hiddenNames registry = plan.rankNames ++ plan.withoutWindows.hiddenNames registry := by
    unfold Plan.hiddenNames
    rw [windowItems_withoutWindows, collectAggregates_withoutWindows h]
    rfl
  unfold Plan.starColumns
  simp only [hhidden, List.filter_filter]
  refine List.filter_congr fun key _ => ?_
  have htables : plan.withoutWindows.tableNames = plan.tableNames := rfl
  simp only [List.contains_eq_mem, List.mem_append, Bool.decide_or, Bool.not_or, htables]
  cases decide (key ∈ plan.rankNames) <;> simp

theorem map_snd_filter_columns (f : ColumnSource → Bool) (registry : Registry) (plan : Plan) (rows : List Row) :
    ((plan.columns registry rows).filter fun c => f c.2).map Prod.snd =
      ((plan.select.flatMap fun item => item.sources (plan.starColumns registry rows)).filter fun c => f c.2).map Prod.snd := by
  have hcolumns := congrArg (List.filter f) (map_snd_columns registry plan rows)
  rwa [List.filter_map, List.filter_map] at hcolumns

/-- The columns of windows read the names of the windows. -/
theorem map_snd_rankColumns (registry : Registry) (plan : Plan) (rows : List Row) :
    (rankColumns (plan.columns registry rows)).map Prod.snd = plan.rankNames.map .rank := by
  have hsources := filter_sources plan.select (plan.starColumns registry rows) id
  simp only [id] at hsources
  unfold rankColumns Plan.rankNames
  rw [map_snd_filter_columns, hsources, sources_windows, List.map_map, List.map_map]
  rfl

/-- The other columns are those of the plan without windows, less columns of the star that a rank has taken the
name of. -/
theorem map_snd_otherColumns (h : plan.SelectsPlain registry) (rows : List Row) :
    (otherColumns (plan.columns registry rows)).map Prod.snd =
      ((plan.withoutWindows.columns registry rows).map Prod.snd).filter fun s => !s.hiddenBy plan.rankNames := by
  unfold otherColumns
  rw [map_snd_filter_columns fun s => !s.isRank, filter_sources _ _ not, map_snd_columns, List.filter_map,
    List.filter_flatMap, starColumns_eq h]
  simp only [sources_filter]
  rfl

theorem plain_of_mem (h : plan.SelectsPlain registry) {c : String × ColumnSource}
    (hc : c ∈ plan.columns registry rows) : c.2.Plain registry := by
  obtain ⟨item, hitem, name, hmem⟩ := exists_item_of_mem hc
  have hnone : item.content.aggregates registry = [] := h item hitem
  have hcontent := comesFrom_of_mem hmem
  cases hsource : c.2 with
  | expr e =>
    rw [hsource] at hcontent
    rwa [show item.content = .expr e from hcontent] at hnone
  | _ => trivial

/-- The star stands for columns of the rows. -/
theorem mem_columnUnion_of_starred {name key : String} (hc : (name, .starred key) ∈ plan.columns registry rows) :
    key ∈ columnUnion rows := by
  obtain ⟨item, -, name, hmem⟩ := exists_item_of_mem hc
  exact (List.mem_filter.mp (comesFrom_of_mem hmem).2).1

end Sources

/-! ## Ranks in the rows -/

/-- The ranks of a place by the names of their windows. -/
def rankEntries (windows : List (String × Window)) (ranks : List (List Nat)) (i : Nat) : List (String × Value) :=
  (windows.zip ranks).map fun x => (x.1.1, Value.ofInt (x.2.getD i 0))

/-- A row and its place, with the ranks of the place. -/
def rankedRow (windows : List (String × Window)) (ranks : List (List Nat)) (x : Nat × Row) : Row :=
  x.2.setAll (rankEntries windows ranks x.1)

/-- The rank of a place in the last window of a name. -/
def lastRank (windows : List (String × Window)) (ranks : List (List Nat)) (i : Nat) (name : String) : Option Value :=
  Entries.get? (rankEntries windows ranks i).reverse name

section Ranked

variable {windows : List (String × Window)} {ranks : List (List Nat)}

theorem map_fst_rankEntries (h : windows.length = ranks.length) (i : Nat) :
    (rankEntries windows ranks i).map Prod.fst = windows.map Prod.fst := by
  have hfst : (windows.zip ranks).map Prod.fst = windows := List.map_fst_zip (Nat.le_of_eq h)
  conv_rhs => rw [← hfst]
  rw [rankEntries, List.map_map, List.map_map]
  rfl

/-- Windows of different names have their own ranks. -/
theorem lastRank_of_nodup (h : windows.length = ranks.length) (hnames : (windows.map Prod.fst).Nodup) (i : Nat) :
    (windows.map Prod.fst).map (lastRank windows ranks i) = ranks.map fun rs => some (Value.ofInt (rs.getD i 0)) := by
  have hkeys : (Entries.keys (rankEntries windows ranks i).reverse).Nodup := by
    rw [Entries.keys, List.map_reverse, List.nodup_reverse, map_fst_rankEntries h]
    exact hnames
  have hown : (rankEntries windows ranks i).map (lastRank windows ranks i ∘ Prod.fst) =
      (rankEntries windows ranks i).map fun e => some e.2 :=
    List.map_congr_left fun e he => Entries.get?_of_mem hkeys (List.mem_reverse.mpr he)
  have hsnd : (windows.zip ranks).map Prod.snd = ranks := List.map_snd_zip (Nat.le_of_eq h.symm)
  rw [← map_fst_rankEntries h i, List.map_map, hown]
  conv_rhs => rw [← hsnd]
  rw [rankEntries, List.map_map, List.map_map]
  rfl

/-- A column of a rank shows the rank in the last window of its name. -/
theorem cellOn_rank (scope : Scope) (h : windows.length = ranks.length) {name : String} (hname : name ∈ windows.map Prod.fst)
    (x : Nat × Row) :
    (ColumnSource.rank name).cellOn scope (rankedRow windows ranks x) = lastRank windows ranks x.1 name := by
  cases hlast : lastRank windows ranks x.1 name with
  | none =>
    have hnone := Entries.get?_eq_none.mp hlast
    rw [Entries.keys, List.map_reverse, List.mem_reverse, map_fst_rankEntries h] at hnone
    exact absurd hname hnone
  | some v =>
    obtain ⟨e, he, rfl⟩ : ∃ e ∈ rankEntries windows ranks x.1, e.2 = v := by
      obtain ⟨e, hfound, hv⟩ := Option.map_eq_some_iff.mp hlast
      exact ⟨e, List.mem_reverse.mp (List.mem_of_find?_eq_some hfound), hv⟩
    obtain ⟨y, -, rfl⟩ := List.mem_map.mp he
    have hget : (rankedRow windows ranks x).get? name = some (Value.ofInt (y.2.getD x.1 0)) := by
      have hrank : Entries.get? (rankEntries windows ranks x.1).reverse name = some (Value.ofInt (y.2.getD x.1 0)) := hlast
      rw [rankedRow, Row.get?_setAll, hrank, Option.some_or]
    show Option.map Value.shown (some (((rankedRow windows ranks x).get? name).getD .null)) = _
    rw [hget]
    rfl

/-- A source that no rank comes before has the value that it has without ranks. -/
theorem valueOn_rankedRow {scope : Scope} (h : windows.length = ranks.length) {x : Nat × Row} {s : ColumnSource}
    (hplain : s.Plain scope.registry) (hspared : s.Spared x.2 (windows.map Prod.fst)) :
    s.valueOn scope (rankedRow windows ranks x) = s.valueOn scope x.2 := by
  rw [← map_fst_rankEntries h x.1] at hspared
  cases s with
  | rank name => exact hspared.elim
  | starred key =>
    have hget : (rankedRow windows ranks x).get? key = x.2.get? key := Row.get?_setAll_of_notMem x.2 hspared
    simp only [ColumnSource.valueOn, hget]
  | column name =>
    have hresolve : scope.resolve? (rankedRow windows ranks x) name = scope.resolve? x.2 name :=
      Row.resolve?_setAll scope hspared
    simp only [ColumnSource.valueOn, hresolve]
  | expr e =>
    have heval : e.eval scope (rankedRow windows ranks x) = e.eval scope x.2 := Expr.eval_setAll hplain hspared
    simp only [ColumnSource.valueOn, Expr.valueOn, heval]

/-- The ranks that stand in the rows do not change the columns of the result. -/
theorem columns_ranked {registry : Registry} {plan : Plan} {ranks : List (List Nat)}
    (h : (windowItems plan.select).length = ranks.length) (rows : List Row) :
    plan.columns registry ((placed rows).map (rankedRow (windowItems plan.select) ranks)) = plan.columns registry rows := by
  have hstar : plan.starColumns registry ((placed rows).map (rankedRow (windowItems plan.select) ranks)) =
      plan.starColumns registry rows := by
    unfold Plan.starColumns
    conv_rhs => rw [← map_snd_placed rows]
    -- The star drops the names of windows, so it does not see what the ranks add to the rows.
    refine filter_columnUnion_congr fun x _ => Row.filter_keys_setAll x.2 fun key hkey => ?_
    rw [map_fst_rankEntries h] at hkey
    have hhidden : key ∈ plan.hiddenNames registry := List.mem_append_left _ hkey
    simp [hhidden]
  unfold Plan.columns
  rw [hstar]

end Ranked

/-! ## What the result shows -/

section Shown

variable {registry : Registry} {plan : Plan} {tables : SourceTables} {journal noted : Journal} {rows : List Row}

/-- Without `DISTINCT` and `ORDER BY` a result shows its rows as they are. -/
theorem shownRows_of_rows (hdistinct : plan.distinct = false) (horder : plan.orderBy = [])
    (hrows : (plan.workingRows ⟨registry, []⟩ tables).start journal = (.ok rows, noted)) :
    ((plan.shownRows registry tables).start journal).1 =
      rows.mapM (projectOn ⟨registry, []⟩ (plan.columns registry rows)) >>= fun outs =>
        .ok ((plan.columns registry rows).map Prod.fst, plan.slice (List.zipWith Projected.mk outs rows)) := by
  have hprojected : plan.projectedRows ⟨registry, []⟩ (plan.columns registry rows) rows =
      rows.mapM fun r => do
        return (⟨← projectRow ⟨registry, []⟩ (plan.columns registry rows) r, r⟩ : Projected) := by
    simp [Plan.projectedRows, hdistinct, horder]
  have hsteady := steady_mapM_zipWith (steady_projectRow ⟨registry, []⟩ (plan.columns registry rows)) Projected.mk rows
  unfold Plan.shownRows
  rw [start_bind, hrows]
  simp only []
  rw [start_map_fst, hprojected, hsteady, outcome_projected]
  cases rows.mapM (projectOn ⟨registry, []⟩ (plan.columns registry rows)) <;> rfl

theorem shownRows_of_fault {fault : Fault}
    (hrows : (plan.workingRows ⟨registry, []⟩ tables).start journal = (.error fault, noted)) :
    ((plan.shownRows registry tables).start journal).1 = .error fault := by
  unfold Plan.shownRows
  rw [start_bind, hrows]

theorem start_workingRows (h : plan.SelectsPlain registry)
    (hrows : (plan.withoutWindows.workingRows ⟨registry, []⟩ tables).start journal = (.ok rows, noted)) :
    (plan.workingRows ⟨registry, []⟩ tables).start journal =
      (applyWindows ⟨registry, []⟩ plan.select rows).start noted := by
  rw [workingRows_eq h, start_bind, hrows]

/-- The ranks are those of the windows over the rows before any rank was written. -/
def RanksOf (scope : Scope) (windows : List (String × Window)) (rows : List Row) (ranks : List (List Nat)) : Prop :=
  List.Forall₂ (fun x rs => ∃ keys values partitions, x.2.RankedBy scope rows keys values partitions rs) windows ranks

/-- A plan ranks the rows that it has without windows, or fails where a window does. -/
theorem workingRows_cases (h : plan.SelectsPlain registry)
    (hrows : (plan.withoutWindows.workingRows ⟨registry, []⟩ tables).start journal = (.ok rows, noted)) :
    let working := (plan.workingRows ⟨registry, []⟩ tables).start journal
    let windows := windowItems plan.select
    ((∀ x ∈ windows, x.2.Evaluates ⟨registry, []⟩ rows) ∧ ∃ ranks ended, RanksOf ⟨registry, []⟩ windows rows ranks ∧
      working = (.ok ((placed rows).map (rankedRow windows ranks)), ended)) ∨
    (¬ ∀ x ∈ windows, x.2.Evaluates ⟨registry, []⟩ rows) ∧ ∃ fault ended, working = (.error fault, ended) := by
  intro working windows
  have hworking : working = (applyWindows ⟨registry, []⟩ plan.select rows).start noted := start_workingRows h hrows
  have houtcome := applyWindows_outcome ⟨registry, []⟩ plan.select rows noted
  rw [← hworking] at houtcome
  have hevaluates : (∃ computed, (windows.mapM fun x => do
        return (x.1, ← (x.2.ranks ⟨registry, []⟩ rows).outcome)) = Except.ok computed) ↔
      ∀ x ∈ windows, x.2.Evaluates ⟨registry, []⟩ rows := by
    rw [exists_mapM]
    refine forall₂_congr fun x _ => ?_
    rw [← exists_ranks_iff]
    exact exists_bind_ok
  cases hcomputed : windows.mapM fun x => do return (x.1, ← (x.2.ranks ⟨registry, []⟩ rows).outcome) with
  | error fault =>
    rw [hcomputed] at houtcome hevaluates
    refine .inr ⟨fun hall => ?_, fault, working.2, Prod.ext houtcome rfl⟩
    obtain ⟨_, hnone⟩ := hevaluates.mpr hall
    cases hnone
  | ok computed =>
    obtain ⟨ranks, hranks, hentries⟩ := rankedBy_of_computed (forall₂_of_mapM hcomputed)
    rw [hcomputed] at houtcome hevaluates
    refine .inl ⟨hevaluates.mp ⟨computed, rfl⟩, ranks, working.2, hranks, Prod.ext (houtcome.trans ?_) rfl⟩
    refine congrArg Except.ok (List.map_congr_left fun x hx => ?_)
    have hplace : x.1 < rows.length := List.mem_range.mp (List.of_mem_zip hx).1
    rw [hentries x.1 hplace]
    rfl

/-! ### Row by row -/

theorem forall₂_projected {scope : Scope} {columns : List (String × ColumnSource)} {outs : List Row}
    (h : rows.mapM (projectOn scope columns) = .ok outs) :
    List.Forall₂ (fun r (p : Projected) => projectOn scope columns r = .ok p.out) rows
      (List.zipWith Projected.mk outs rows) := by
  have hall := forall₂_of_mapM h
  clear h
  induction hall with
  | nil => exact .nil
  | cons hr _ ih => exact .cons hr ih

theorem forall₂_slice {α β : Type} {R : α → β → Prop} {as : List α} {bs : List β} (h : List.Forall₂ R as bs)
    (plan : Plan) : List.Forall₂ R (plan.slice as) (plan.slice bs) := by
  unfold Plan.slice
  cases plan.limit with
  | none => exact List.forall₂_drop _ h
  | some limit => exact List.forall₂_take _ (List.forall₂_drop _ h)

theorem forall₂_beside {α β γ : Type} {R : α → β → Prop} {S : α → γ → Prop} {T : β → γ → Prop} {as : List α}
    {bs : List β} {cs : List γ} (hb : List.Forall₂ R as bs) (hc : List.Forall₂ S as cs)
    (h : ∀ a ∈ as, ∀ b c, R a b → S a c → T b c) : List.Forall₂ T bs cs := by
  induction hb generalizing cs with
  | nil =>
    cases hc
    exact .nil
  | cons hab _ ih =>
    cases hc with
    | cons hac hrest =>
      obtain ⟨hfirst, hothers⟩ := List.forall_mem_cons.mp h
      exact .cons (hfirst _ _ hab hac) (ih hrest hothers)

/-- What a plan shows of a row and its place beside ranks: in every column what the source has on the row with its
ranks. That is in the columns of windows the rank in the last window of the same name, and in the others what
the source has on the row itself, if no rank comes before it. -/
structure Plan.ShowsRow (registry : Registry) (plan : Plan) (rows : List Row) (ranks : List (List Nat)) (x : Nat × Row)
    (out : Row) : Prop where
  ranked : ∀ c ∈ plan.columns registry rows,
    out.get? c.1 = c.2.cellOn ⟨registry, []⟩ (rankedRow (windowItems plan.select) ranks x)
  latest : cells (rankColumns (plan.columns registry rows)) out =
    plan.rankNames.map (lastRank (windowItems plan.select) ranks x.1)
  own : plan.rankNames.Nodup →
    cells (rankColumns (plan.columns registry rows)) out = ranks.map fun rs => some (Value.ofInt (rs.getD x.1 0))
  others : ∀ c ∈ otherColumns (plan.columns registry rows), c.2.Spared x.2 plan.rankNames →
    out.get? c.1 = c.2.cellOn ⟨registry, []⟩ x.2

/-- No rank of the plan comes before what the other columns read on the rows. -/
def Plan.RanksApart (registry : Registry) (plan : Plan) (rows : List Row) : Prop :=
  ∀ r ∈ rows, ∀ c ∈ plan.withoutWindows.columns registry rows, c.2.Spared r plan.rankNames

theorem showsRow_of_projectOn (h : plan.SelectsPlain registry) {ranks : List (List Nat)}
    (hlength : (windowItems plan.select).length = ranks.length) {x : Nat × Row} {out : Row}
    (hout : projectOn ⟨registry, []⟩ (plan.columns registry rows) (rankedRow (windowItems plan.select) ranks x) = .ok out) :
    plan.ShowsRow registry rows ranks x out := by
  have hnames := nodup_columns registry plan rows
  have hranked : ∀ c ∈ plan.columns registry rows,
      out.get? c.1 = c.2.cellOn ⟨registry, []⟩ (rankedRow (windowItems plan.select) ranks x) := fun c hc =>
    get?_projectOn_of_mem hnames hout hc
  have hlatest : cells (rankColumns (plan.columns registry rows)) out =
      plan.rankNames.map (lastRank (windowItems plan.select) ranks x.1) := by
    have hsubset : rankColumns (plan.columns registry rows) ⊆ plan.columns registry rows := List.filter_subset_self _
    rw [cells_projectOn hnames hout hsubset, map_snd_rankColumns, List.map_map]
    exact List.map_congr_left fun name hname => cellOn_rank _ hlength hname x
  refine ⟨hranked, hlatest, fun hnodup => hlatest.trans (lastRank_of_nodup hlength hnodup x.1), fun c hc hspared => ?_⟩
  have hmem : c ∈ plan.columns registry rows := (List.mem_filter.mp hc).1
  rw [hranked c hmem, ColumnSource.cellOn, ColumnSource.cellOn, valueOn_rankedRow hlength (plain_of_mem h hmem) hspared]

/-- Ranks that stand apart leave all other columns as they are without windows. -/
theorem map_snd_otherColumns_of_apart (h : plan.SelectsPlain registry) (hapart : plan.RanksApart registry rows) :
    (otherColumns (plan.columns registry rows)).map Prod.snd =
      (plan.withoutWindows.columns registry rows).map Prod.snd := by
  rw [map_snd_otherColumns h]
  refine List.filter_eq_self.mpr fun source hsource => ?_
  obtain ⟨⟨name, source⟩, hmem, rfl⟩ := List.mem_map.mp hsource
  cases source with
  | starred key =>
    -- The star stands for a column of some row, and on that row no rank has its name.
    obtain ⟨r, hr, -⟩ := mem_columnUnion.mp (mem_columnUnion_of_starred hmem)
    have hspared : key ∉ plan.rankNames := hapart r hr _ hmem
    simpa [ColumnSource.hiddenBy] using hspared
  | _ => rfl

/-- On a row with ranks that stand apart the sources have the values that they have without windows. -/
theorem valueOn_of_apart (h : plan.SelectsPlain registry) (hapart : plan.RanksApart registry rows) {ranks : List (List Nat)}
    (hlength : (windowItems plan.select).length = ranks.length) {x : Nat × Row} (hx : x.2 ∈ rows) :
    ∀ source ∈ (plan.withoutWindows.columns registry rows).map Prod.snd,
      source.valueOn ⟨registry, []⟩ (rankedRow (windowItems plan.select) ranks x) = source.valueOn ⟨registry, []⟩ x.2 := by
  intro source hsource
  obtain ⟨c, hc, rfl⟩ := List.mem_map.mp hsource
  exact valueOn_rankedRow hlength (plain_of_mem h.withoutWindows hc) (hapart _ hx c hc)

/-- A row with ranks that stand apart is shown where it is shown without windows. -/
theorem exists_projectOn_of_apart (h : plan.SelectsPlain registry) (hapart : plan.RanksApart registry rows)
    {ranks : List (List Nat)} (hlength : (windowItems plan.select).length = ranks.length) {x : Nat × Row} (hx : x.2 ∈ rows) :
    (∃ out, projectOn ⟨registry, []⟩ (plan.columns registry rows) (rankedRow (windowItems plan.select) ranks x) = .ok out) ↔
      ∃ out, projectOn ⟨registry, []⟩ (plan.withoutWindows.columns registry rows) x.2 = .ok out := by
  have hvalue := valueOn_of_apart h hapart hlength hx
  rw [exists_projectOn, exists_projectOn]
  constructor
  · intro hall source hsource
    rw [← hvalue source hsource]
    refine hall source ?_
    rw [← map_snd_otherColumns_of_apart h hapart] at hsource
    exact List.map_subset _ (List.filter_subset_self _) hsource
  · intro hall source hsource
    by_cases hrank : source.isRank = true
    -- A rank has a value on every row.
    · cases source with
      | rank name => exact ⟨_, rfl⟩
      | _ => cases hrank
    · have hother : source ∈ (plan.withoutWindows.columns registry rows).map Prod.snd := by
        rw [← map_snd_otherColumns_of_apart h hapart]
        obtain ⟨c, hc, rfl⟩ := List.mem_map.mp hsource
        exact List.mem_map_of_mem (List.mem_filter.mpr ⟨hc, by simpa using hrank⟩)
      rw [hvalue source hother]
      exact hall source hother

/-- Beside ranks that stand apart a row shows in its other columns what it shows without windows. -/
theorem cells_of_apart (h : plan.SelectsPlain registry) (hapart : plan.RanksApart registry rows) {ranks : List (List Nat)}
    (hlength : (windowItems plan.select).length = ranks.length) {x : Nat × Row} (hx : x.2 ∈ rows) {out out' : Row}
    (hout : projectOn ⟨registry, []⟩ (plan.columns registry rows) (rankedRow (windowItems plan.select) ranks x) = .ok out)
    (hout' : projectOn ⟨registry, []⟩ (plan.withoutWindows.columns registry rows) x.2 = .ok out') :
    cells (otherColumns (plan.columns registry rows)) out = cells (plan.withoutWindows.columns registry rows) out' := by
  have hsubset : otherColumns (plan.columns registry rows) ⊆ plan.columns registry rows := List.filter_subset_self _
  rw [cells_projectOn (nodup_columns ..) hout hsubset,
    cells_projectOn (nodup_columns ..) hout' (List.Subset.refl _), map_snd_otherColumns_of_apart h hapart]
  refine List.map_congr_left fun source hsource => ?_
  unfold ColumnSource.cellOn
  rw [valueOn_of_apart h hapart hlength hx source hsource]

end Shown

/-! ### Rows by their places -/

theorem forall_mem_placed {rows : List Row} {P : Row → Prop} : (∀ r ∈ rows, P r) ↔ ∀ x ∈ placed rows, P x.2 := by
  conv_lhs => rw [← map_snd_placed rows]
  exact List.forall_mem_map

theorem snd_mem_of_mem_placed {rows : List Row} {x : Nat × Row} (hx : x ∈ placed rows) : x.2 ∈ rows :=
  forall_mem_placed.mp (fun _ hr => hr) x hx

/-- What holds of the rows in order holds of the rows with their places. -/
theorem forall₂_placed {β : Type} {R : Row → β → Prop} {rows : List Row} {bs : List β} :
    List.Forall₂ (fun x => R x.2) (placed rows) bs ↔ List.Forall₂ R rows bs := by
  rw [← List.forall₂_map_left_iff, map_snd_placed]

section Beside

variable {registry : Registry} {plan : Plan} {tables : SourceTables} {journal noted : Journal} {rows : List Row}
  {names : List String} {shown : List Projected}

/-- A plan shows its rows, each on its columns. -/
theorem exists_projected (hdistinct : plan.distinct = false) (horder : plan.orderBy = [])
    (hrows : (plan.workingRows ⟨registry, []⟩ tables).start journal = (.ok rows, noted))
    (hshown : ((plan.shownRows registry tables).start journal).1 = .ok (names, shown)) :
    names = (plan.columns registry rows).map Prod.fst ∧ ∃ projected, shown = plan.slice projected ∧
      List.Forall₂ (fun r (p : Projected) => projectOn ⟨registry, []⟩ (plan.columns registry rows) r = .ok p.out) rows projected := by
  obtain ⟨outs, houts, hpair⟩ := bind_eq_ok ((shownRows_of_rows hdistinct horder hrows).symm.trans hshown)
  cases hpair
  exact ⟨rfl, _, rfl, forall₂_projected houts⟩

/-- A plan shows in each column what its source has on the row. -/
theorem shown_cells (hdistinct : plan.distinct = false) (horder : plan.orderBy = [])
    (hrows : (plan.workingRows ⟨registry, []⟩ tables).start journal = (.ok rows, noted))
    (hshown : ((plan.shownRows registry tables).start journal).1 = .ok (names, shown)) :
    let columns := plan.columns registry rows
    names = columns.map Prod.fst ∧
      List.Forall₂ (fun r (p : Projected) => cells columns p.out = (columns.map Prod.snd).map (·.cellOn ⟨registry, []⟩ r))
        (plan.slice rows) shown := by
  intro columns
  obtain ⟨hnames, projected, rfl, hprojected⟩ := exists_projected hdistinct horder hrows hshown
  have hshows := hprojected.imp fun r p hp => cells_projectOn (nodup_columns ..) hp (List.Subset.refl columns)
  exact ⟨hnames, forall₂_slice hshows plan⟩

theorem shownRows_withoutWindows (hdistinct : plan.distinct = false) (horder : plan.orderBy = [])
    (hrows : (plan.withoutWindows.workingRows ⟨registry, []⟩ tables).start journal = (.ok rows, noted)) :
    ((plan.withoutWindows.shownRows registry tables).start journal).1 =
      rows.mapM (projectOn ⟨registry, []⟩ (plan.withoutWindows.columns registry rows)) >>= fun outs =>
        .ok ((plan.withoutWindows.columns registry rows).map Prod.fst,
          plan.slice (List.zipWith Projected.mk outs rows)) :=
  shownRows_of_rows hdistinct horder hrows

/-- A plan with windows shows its rows on their columns, ranked by the windows over the rows without ranks. -/
theorem shownRows_of_ranked (hdistinct : plan.distinct = false) (horder : plan.orderBy = []) {ranks : List (List Nat)}
    (hranks : RanksOf ⟨registry, []⟩ (windowItems plan.select) rows ranks)
    (hworking : (plan.workingRows ⟨registry, []⟩ tables).start journal =
      (.ok ((placed rows).map (rankedRow (windowItems plan.select) ranks)), noted)) :
    ((plan.shownRows registry tables).start journal).1 =
      ((placed rows).map (rankedRow (windowItems plan.select) ranks)).mapM
          (projectOn ⟨registry, []⟩ (plan.columns registry rows)) >>= fun outs =>
        .ok ((plan.columns registry rows).map Prod.fst,
          plan.slice (List.zipWith Projected.mk outs ((placed rows).map (rankedRow (windowItems plan.select) ranks)))) := by
  have hshown := shownRows_of_rows hdistinct horder hworking
  rwa [columns_ranked hranks.length_eq] at hshown

/-- A plan with windows shows its rows with their ranks, each on its columns. -/
theorem exists_projected_ranked (hdistinct : plan.distinct = false) (horder : plan.orderBy = []) {ranks : List (List Nat)}
    (hranks : RanksOf ⟨registry, []⟩ (windowItems plan.select) rows ranks)
    (hworking : (plan.workingRows ⟨registry, []⟩ tables).start journal =
      (.ok ((placed rows).map (rankedRow (windowItems plan.select) ranks)), noted))
    (hshown : ((plan.shownRows registry tables).start journal).1 = .ok (names, shown)) :
    names = (plan.columns registry rows).map Prod.fst ∧ ∃ projected, shown = plan.slice projected ∧
      List.Forall₂ (fun x (p : Projected) => projectOn ⟨registry, []⟩ (plan.columns registry rows)
        (rankedRow (windowItems plan.select) ranks x) = .ok p.out) (placed rows) projected := by
  have hprojected := exists_projected hdistinct horder hworking hshown
  rw [columns_ranked hranks.length_eq] at hprojected
  simpa only [List.forall₂_map_left_iff] using hprojected

variable (hplain : plan.SelectsPlain registry) (hdistinct : plan.distinct = false) (horder : plan.orderBy = [])
  (hrows : (plan.withoutWindows.workingRows ⟨registry, []⟩ tables).start journal = (.ok rows, noted))

include hplain hdistinct horder hrows

/-- Its windows rank the rows that the plan has without them, and the ranks stand beside the other columns. -/
theorem shown_ranked (hshown : ((plan.shownRows registry tables).start journal).1 = .ok (names, shown)) :
    names = (plan.columns registry rows).map Prod.fst ∧
      ∃ ranks, RanksOf ⟨registry, []⟩ (windowItems plan.select) rows ranks ∧
        List.Forall₂ (fun x (p : Projected) => plan.ShowsRow registry rows ranks x p.out) (plan.slice (placed rows)) shown := by
  rcases workingRows_cases hplain hrows with ⟨-, ranks, ended, hranks, hworking⟩ | ⟨-, fault, ended, hworking⟩
  · obtain ⟨hnames, projected, rfl, hprojected⟩ := exists_projected_ranked hdistinct horder hranks hworking hshown
    have hshows := hprojected.imp fun x p hp => showsRow_of_projectOn hplain hranks.length_eq hp
    exact ⟨hnames, ranks, hranks, forall₂_slice hshows plan⟩
  · cases hshown.symm.trans (shownRows_of_fault hworking)

/-- With ranks that stand apart there is a result where there is one without windows and all windows rank. -/
theorem exists_shown_iff_of_apart (hapart : plan.RanksApart registry rows) :
    (∃ result, ((plan.shownRows registry tables).start journal).1 = .ok result) ↔
      (∃ result, ((plan.withoutWindows.shownRows registry tables).start journal).1 = .ok result) ∧
        ∀ x ∈ windowItems plan.select, x.2.Evaluates ⟨registry, []⟩ rows := by
  rcases workingRows_cases hplain hrows with ⟨hevaluates, ranks, ended, hranks, hworking⟩ | ⟨hnot, fault, ended, hworking⟩
  · rw [and_iff_left hevaluates, shownRows_of_ranked hdistinct horder hranks hworking,
      shownRows_withoutWindows hdistinct horder hrows, exists_bind_ok, exists_bind_ok, exists_mapM, exists_mapM,
      List.forall_mem_map, forall_mem_placed]
    exact forall₂_congr fun x hx =>
      exists_projectOn_of_apart hplain hapart hranks.length_eq (snd_mem_of_mem_placed hx)
  · refine iff_of_false ?_ fun h => hnot h.2
    rintro ⟨_, hshown⟩
    cases hshown.symm.trans (shownRows_of_fault hworking)

/-- Beside ranks that stand apart all other columns show what they show without windows. -/
theorem shown_of_apart (hapart : plan.RanksApart registry rows) {names' : List String} {shown' : List Projected}
    (hshown : ((plan.shownRows registry tables).start journal).1 = .ok (names, shown))
    (hshown' : ((plan.withoutWindows.shownRows registry tables).start journal).1 = .ok (names', shown')) :
    List.Forall₂ (fun p q : Projected => cells (otherColumns (plan.columns registry rows)) p.out =
      cells (plan.withoutWindows.columns registry rows) q.out) shown shown' := by
  rcases workingRows_cases hplain hrows with ⟨-, ranks, ended, hranks, hworking⟩ | ⟨-, fault, ended, hworking⟩
  · obtain ⟨-, projected, rfl, hranked⟩ := exists_projected_ranked hdistinct horder hranks hworking hshown
    obtain ⟨-, projected', hshown', hprojected⟩ := exists_projected (show plan.withoutWindows.distinct = false from hdistinct)
      (show plan.withoutWindows.orderBy = [] from horder) hrows hshown'
    obtain rfl : shown' = plan.slice projected' := hshown'
    refine forall₂_slice (forall₂_beside hranked (forall₂_placed.mpr hprojected) fun x hx p q hp hq => ?_) plan
    exact cells_of_apart hplain hapart hranks.length_eq (snd_mem_of_mem_placed hx) hp hq
  · cases hshown.symm.trans (shownRows_of_fault hworking)

end Beside

/-- A plan without `DISTINCT`, `ORDER BY` and aggregate calls, beside the plan without its windows. Where its
check passes the other one's does, with the same tables, and it fails where the other has no rows to rank. Its
windows rank the rows of the other; every row shows in the columns of windows the ranks that were written last
under their names, and in each other column that no rank comes before the value of the row without ranks. If
all ranks stand apart, the plan comes to a result where the other does and all windows rank, and row by row
shows what the other shows. -/
theorem shown_beside_windows (registry : Registry) (plan : Plan) (hdistinct : plan.distinct = false)
    (horder : plan.orderBy = []) (hplain : plan.SelectsPlain registry) :
    let scope : Scope := ⟨registry, []⟩
    let bare := plan.withoutWindows
    let windows := windowItems plan.select
    (∀ dataset tables, plan.tables registry dataset = .ok tables → bare.tables registry dataset = .ok tables) ∧
    ∀ tables journal,
      let full := ((plan.shownRows registry tables).start journal).1
      let rest := ((bare.shownRows registry tables).start journal).1
      (∀ fault noted, (bare.workingRows scope tables).start journal = (.error fault, noted) →
        full = .error fault ∧ rest = .error fault) ∧
      ∀ rows noted, (bare.workingRows scope tables).start journal = (.ok rows, noted) →
        let columns := plan.columns registry rows
        let others := bare.columns registry rows
        (otherColumns columns).map Prod.snd =
          (others.map Prod.snd).filter (fun source => !source.hiddenBy plan.rankNames) ∧
        (∀ names shown, full = .ok (names, shown) →
          names = columns.map Prod.fst ∧
          ∃ ranks, RanksOf scope windows rows ranks ∧
            List.Forall₂ (fun x (p : Projected) => plan.ShowsRow registry rows ranks x p.out)
              (plan.slice (placed rows)) shown) ∧
        (∀ names shown, rest = .ok (names, shown) →
          names = others.map Prod.fst ∧
          List.Forall₂ (fun r (q : Projected) => cells others q.out = (others.map Prod.snd).map (·.cellOn scope r))
            (plan.slice rows) shown) ∧
        (plan.RanksApart registry rows →
          ((∃ result, full = .ok result) ↔ (∃ result, rest = .ok result) ∧ ∀ x ∈ windows, x.2.Evaluates scope rows) ∧
          ∀ names shown names' shown', full = .ok (names, shown) → rest = .ok (names', shown') →
            List.Forall₂ (fun p q : Projected => cells (otherColumns columns) p.out = cells others q.out)
              shown shown') := by
  intro scope bare windows
  refine ⟨fun dataset tables => tables_withoutWindows, fun tables journal => ?_⟩
  intro full rest
  constructor
  · intro fault noted hrows
    have hworking : (plan.workingRows scope tables).start journal = (.error fault, noted) := by
      rw [workingRows_eq hplain, start_bind, hrows]
    exact ⟨shownRows_of_fault hworking, shownRows_of_fault hrows⟩
  intro rows noted hrows columns others
  refine ⟨map_snd_otherColumns hplain rows, ?_, ?_, fun hapart => ⟨?_, ?_⟩⟩
  · intro names shown hshown
    exact shown_ranked hplain hdistinct horder hrows hshown
  · intro names shown hshown
    exact shown_cells hdistinct horder hrows hshown
  · exact exists_shown_iff_of_apart hplain hdistinct horder hrows hapart
  · intro names shown names' shown' hshown hshown'
    exact shown_of_apart hplain hdistinct horder hrows hapart hshown hshown'

/-! ## Two rows, numbered -/

/-- Two rows with these values in the column `a`. -/
def rowPair : List Row := [Row.ofList [("a", Value.ofInt 10)], Row.ofList [("a", Value.ofInt 20)]]

/-- The numbers of rows in the order of their column `a`. -/
def numbers (d : Direction) : Window := ⟨"row_number", [], [⟨.column "a", d⟩]⟩

/-- The column `a` by its qualified name, beside a window of its plain name and a window of another. -/
def numberedBeside : Plan :=
  { Plan.blank with
    select := [⟨.expr (.column "t.a"), none⟩, ⟨.window (numbers .descending), some "a"⟩,
      ⟨.window (numbers .ascending), some "n"⟩], table := "t" }

/-- These ranks stand apart: under its qualified name the column has its own values, and both windows have their
own ranks. -/
theorem shown_beside_windows_qualified :
    let scope : Scope := ⟨Registry.builtin, []⟩
    let rows := Dataset.qualify "t" rowPair
    let full := ((numberedBeside.shownRows Registry.builtin ⟨rowPair, []⟩).start []).1
    let rest := ((numberedBeside.withoutWindows.shownRows Registry.builtin ⟨rowPair, []⟩).start []).1
    numberedBeside.rankNames.Nodup ∧
    ∃ names shown names' shown' ranks, full = .ok (names, shown) ∧ rest = .ok (names', shown') ∧
      RanksOf scope (windowItems numberedBeside.select) rows ranks ∧
      List.Forall₂ (fun x (p : Projected) => numberedBeside.ShowsRow Registry.builtin rows ranks x p.out)
        (numberedBeside.slice (placed rows)) shown ∧
      List.Forall₂ (fun p q : Projected => cells (otherColumns (numberedBeside.columns Registry.builtin rows)) p.out =
        cells (numberedBeside.withoutWindows.columns Registry.builtin rows) q.out) shown shown' := by
  intro scope rows full rest
  have hplain : numberedBeside.SelectsPlain Registry.builtin := by
    unfold Plan.SelectsPlain
    decide +kernel
  have hrows : (numberedBeside.withoutWindows.workingRows scope ⟨rowPair, []⟩).start [] = (.ok rows, _) := rfl
  have hapart : numberedBeside.RanksApart Registry.builtin rows := by
    have hspares : ∀ r ∈ rows, r.Spares ["a", "n"] "t.a" := by decide +kernel
    intro r hr c hc
    have hcolumns : numberedBeside.withoutWindows.columns Registry.builtin rows = [("a", .column "t.a")] := rfl
    rw [hcolumns, List.mem_singleton] at hc
    rw [hc]
    exact hspares r hr
  obtain ⟨-, h⟩ := shown_beside_windows Registry.builtin numberedBeside rfl rfl hplain
  obtain ⟨-, h⟩ := h ⟨rowPair, []⟩ []
  obtain ⟨-, hranked, -, hbeside⟩ := h rows _ hrows
  obtain ⟨hiff, hcells⟩ := hbeside hapart
  obtain ⟨⟨names', shown'⟩, hrest⟩ : ∃ result, rest = .ok result := ⟨_, rfl⟩
  obtain ⟨⟨names, shown⟩, hfull⟩ := hiff.mpr ⟨⟨_, hrest⟩, by
    intro x hx
    rcases List.mem_pair.mp hx with rfl | rfl
    · exact ⟨⟨_, rfl⟩, _, rfl⟩
    · exact ⟨⟨_, rfl⟩, _, rfl⟩⟩
  obtain ⟨-, ranks, hranks, hshows⟩ := hranked names shown hfull
  exact ⟨by decide, names, shown, names', shown', ranks, hfull, hrest, hranks, hshows, hcells _ _ _ _ hfull hrest⟩

theorem ranks_numbers (d : Direction) :
    ((numbers d).ranks ⟨Registry.builtin, []⟩ (Dataset.qualify "t" rowPair)).outcome =
      .ok (if d = .ascending then [(0, 1), (1, 2)] else [(1, 1), (0, 2)]) := by
  have hkeys : (Dataset.qualify "t" rowPair).mapM (keysOn ⟨Registry.builtin, []⟩ (numbers d).partitionBy) =
      .ok [[], []] := rfl
  have hvalues : (Dataset.qualify "t" rowPair).mapM (orderValuesOn ⟨Registry.builtin, []⟩ (numbers d).orderBy) =
      .ok [[Value.ofInt 10], [Value.ofInt 20]] := rfl
  have hplaces : (numbers d).placeRanks [[], []] [[Value.ofInt 10], [Value.ofInt 20]] =
      rankPartition (numbers d).ranking [d] [([Value.ofInt 10], 0), ([Value.ofInt 20], 1)] := by
    have hparts : bucketPlaces ([[], []] : List (List Key)) = [[0, 1]] := by decide +kernel
    rw [Window.placeRanks, hparts, List.flatMap_singleton]
    rfl
  rw [outcome_ranks_ok hkeys hvalues, hplaces, rankPartition, sortByKeys, mergeSort_pair]
  cases d <;> decide +kernel

/-- The column `a` between two windows of its name. -/
def numberedTwice : Plan :=
  { Plan.blank with
    select := [⟨.expr (.column "a"), none⟩, ⟨.window (numbers .ascending), some "a"⟩,
      ⟨.window (numbers .descending), some "a"⟩], table := "t" }

/-- The window that stands last takes the place of the column `a` and of the other window. -/
theorem rank_takes_place_of_column :
    let shown (plan : Plan) (names : List String) :=
      ((plan.shownRows Registry.builtin ⟨rowPair, []⟩).start []).1.map fun r => r.2.map fun p => names.map p.out.get?
    numberedTwice.check Registry.builtin = .ok () ∧
    shown numberedTwice.withoutWindows ["a"] = .ok [[some (Value.ofInt 10)], [some (Value.ofInt 20)]] ∧
    ((numbers .ascending).ranks ⟨Registry.builtin, []⟩ (Dataset.qualify "t" rowPair)).outcome = .ok [(0, 1), (1, 2)] ∧
    shown numberedTwice ["a", "a_2", "a_3"] =
      .ok [[some (Value.ofInt 2), some (Value.ofInt 2), some (Value.ofInt 2)],
        [some (Value.ofInt 1), some (Value.ofInt 1), some (Value.ofInt 1)]] := by
  intro shown
  refine ⟨rfl, by decide +kernel, ranks_numbers .ascending, ?_⟩
  have hplain : numberedTwice.SelectsPlain Registry.builtin := by
    unfold Plan.SelectsPlain
    decide +kernel
  have hrows : (numberedTwice.withoutWindows.workingRows ⟨Registry.builtin, []⟩ ⟨rowPair, []⟩).start [] =
      (.ok (Dataset.qualify "t" rowPair), [.base "t" 2]) := rfl
  have hcomputed : (windowItems numberedTwice.select).mapM (fun x => do
      return (x.1, ← (x.2.ranks ⟨Registry.builtin, []⟩ (Dataset.qualify "t" rowPair)).outcome)) =
      Except.ok [("a", [(0, 1), (1, 2)]), ("a", [(1, 1), (0, 2)])] := by
    have hwindows : windowItems numberedTwice.select = [("a", numbers .ascending), ("a", numbers .descending)] := rfl
    rw [hwindows, List.mapM_cons, List.mapM_cons, ranks_numbers, ranks_numbers]
    rfl
  have houtcome := applyWindows_outcome ⟨Registry.builtin, []⟩ numberedTwice.select (Dataset.qualify "t" rowPair) [.base "t" 2]
  rw [hcomputed] at houtcome
  have hworking : (numberedTwice.workingRows ⟨Registry.builtin, []⟩ ⟨rowPair, []⟩).start [] =
      (.ok (rankedRows (Dataset.qualify "t" rowPair) [("a", [(0, 1), (1, 2)]), ("a", [(1, 1), (0, 2)])]), _) :=
    Prod.ext ((congrArg Prod.fst (start_workingRows hplain hrows)).trans houtcome) rfl
  show Except.map _ _ = _
  rw [shownRows_of_rows rfl rfl hworking]
  decide +kernel

end JsonTables
