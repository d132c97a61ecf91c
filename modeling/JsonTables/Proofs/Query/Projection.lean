/-
  JsonTables.Proofs.Query.Projection — the row that a result shows, column by column.

  Proved:
  - `outcome_projectRow`: the values of the columns, or the first fault on the way to them.
  - `get?_projectOn_of_notMem`: a result shows nothing under a name that is not one of its columns.
  - `get?_projectOn_of_mem`: under the name of a column it shows the value of the column.
  - `projectOn_concat`: one more column behind the others sets one more value.
  - `nodup_uniqueNames`: names made new are all different.
  - `exists_item_of_mem`: every column comes from an item of the select list.
  - `uniqueNames_append`: names behind others are made new, and the others stay as they are.
-/

import JsonTables.Proofs.Entries
import JsonTables.Proofs.Evaluation
import JsonTables.Query.Projection
import Mathlib.Data.List.Nodup

namespace JsonTables

open Evaluation

/-! ## The values of the columns -/

/-- The value of a source on a row, or the fault of its arithmetic. -/
def ColumnSource.valueOn (scope : Scope) (row : Row) : ColumnSource → Except Fault Value
  | .starred key | .rank key => .ok ((row.get? key).getD .null)
  | .column name => .ok ((scope.resolve? row name).getD .null)
  | .expr e => e.valueOn scope row

theorem ColumnSource.steady_value (scope : Scope) (row : Row) (source : ColumnSource) :
    Steady (source.value scope row) := by
  cases source with
  | expr e => exact Expr.steady_eval scope row e
  | _ => exact steady_pure _

theorem ColumnSource.outcome_value (scope : Scope) (row : Row) (source : ColumnSource) :
    (source.value scope row).outcome = source.valueOn scope row := by
  cases source <;> rfl

/-- What a column shows on a row, with the name of the column. -/
def entryOn (scope : Scope) (row : Row) (column : String × ColumnSource) : Except Fault (String × Value) := do
  return (column.1, (← column.2.valueOn scope row).shown)

/-- The row that a result shows for a row. -/
def projectOn (scope : Scope) (columns : List (String × ColumnSource)) (row : Row) : Except Fault Row := do
  return Row.ofList (← columns.mapM (entryOn scope row))

/-- What a column shows on a row, as a computation. -/
def projectEntry (scope : Scope) (row : Row) (column : String × ColumnSource) : Evaluation (String × Value) := do
  let v ← column.2.value scope row
  return (column.1, v.shown)

theorem steady_projectEntry (scope : Scope) (row : Row) (column : String × ColumnSource) :
    Steady (projectEntry scope row column) :=
  (ColumnSource.steady_value scope row column.2).bind fun _ => steady_pure _

theorem outcome_projectEntry (scope : Scope) (row : Row) (column : String × ColumnSource) :
    (projectEntry scope row column).outcome = entryOn scope row column := by
  unfold projectEntry entryOn
  rw [outcome_bind (ColumnSource.steady_value scope row column.2) fun _ => steady_pure _,
    ColumnSource.outcome_value]
  rfl

theorem steady_projectRow (scope : Scope) (columns : List (String × ColumnSource)) (row : Row) :
    Steady (projectRow scope columns row) :=
  (steady_mapM (steady_projectEntry scope row) columns).bind fun _ => steady_pure _

theorem outcome_projectRow (scope : Scope) (columns : List (String × ColumnSource)) (row : Row) :
    (projectRow scope columns row).outcome = projectOn scope columns row := by
  refine (outcome_bind (steady_mapM (steady_projectEntry scope row) columns) fun _ => steady_pure _).trans ?_
  rw [outcome_mapM (steady_projectEntry scope row)]
  simp only [outcome_projectEntry]
  rfl

/-! ## What a shown row holds -/

/-- What a result shows of a source on a row, if it has a value there. -/
def ColumnSource.cellOn (scope : Scope) (row : Row) (source : ColumnSource) : Option Value :=
  (source.valueOn scope row).toOption.map Value.shown

section Entries

variable {scope : Scope} {row : Row} {columns : List (String × ColumnSource)} {entries : List (String × Value)}

theorem entryOn_eq_ok {column : String × ColumnSource} {e : String × Value} (h : entryOn scope row column = .ok e) :
    e.1 = column.1 ∧ column.2.cellOn scope row = some e.2 := by
  unfold entryOn at h
  unfold ColumnSource.cellOn
  cases hv : column.2.valueOn scope row with
  | error fault => rw [hv] at h; cases h
  | ok v => rw [hv] at h; cases h; exact ⟨rfl, rfl⟩

theorem keys_of_entriesOn (h : columns.mapM (entryOn scope row) = .ok entries) :
    Entries.keys entries = columns.map Prod.fst := by
  have hall := forall₂_of_mapM h
  clear h
  induction hall with
  | nil => rfl
  | cons he _ ih =>
    rw [List.map_cons, ← ih, ← (entryOn_eq_ok he).1]
    rfl

theorem get?_entriesOn (h : columns.mapM (entryOn scope row) = .ok entries) (hnames : (columns.map Prod.fst).Nodup)
    {column : String × ColumnSource} (hcolumn : column ∈ columns) :
    Entries.get? entries column.1 = column.2.cellOn scope row := by
  have hall := forall₂_of_mapM h
  clear h
  induction hall with
  | nil => cases hcolumn
  | @cons first e columns entries he _ ih =>
    obtain ⟨hname, hcell⟩ := entryOn_eq_ok he
    rw [List.map_cons, List.nodup_cons] at hnames
    rw [Entries.get?_cons, hname]
    rcases List.mem_cons.mp hcolumn with rfl | hcolumn
    · rw [if_pos rfl, hcell]
    · have hne : first.1 ≠ column.1 := fun heq => hnames.1 (heq ▸ List.mem_map_of_mem hcolumn)
      rw [if_neg hne]
      exact ih hnames.2 hcolumn

end Entries

theorem get?_projectOn_of_notMem {scope : Scope} {columns : List (String × ColumnSource)} {row out : Row}
    (h : projectOn scope columns row = .ok out) {name : String} (hname : name ∉ columns.map Prod.fst) :
    out.get? name = none := by
  obtain ⟨entries, hentries, rfl⟩ := bind_eq_ok h
  refine Entries.get?_eq_none.mpr fun hmem => hname ?_
  have hkeys : Entries.keys (Row.ofList entries).entries = ((Entries.keys entries).removeAll []).eraseDups :=
    Entries.keys_overlay [] entries
  rw [hkeys, List.mem_eraseDups, keys_of_entriesOn hentries] at hmem
  simpa [List.removeAll] using hmem

/-- Under the name of a column a result shows the value of its source. -/
theorem get?_projectOn_of_mem {scope : Scope} {columns : List (String × ColumnSource)}
    (hnames : (columns.map Prod.fst).Nodup) {row out : Row} (h : projectOn scope columns row = .ok out)
    {column : String × ColumnSource} (hcolumn : column ∈ columns) :
    out.get? column.1 = column.2.cellOn scope row := by
  obtain ⟨entries, hentries, rfl⟩ := bind_eq_ok h
  have hkeys : (Entries.keys entries).Nodup := (keys_of_entriesOn hentries).symm ▸ hnames
  have hget : (Row.ofList entries).get? column.1 = Entries.get? entries column.1 :=
    (Entries.get?_overlay [] hkeys column.1).trans Option.or_none
  exact hget.trans (get?_entriesOn hentries hnames hcolumn)

/-- What a row of a result shows in some columns. -/
def cells (columns : List (String × ColumnSource)) (out : Row) : List (Option Value) :=
  columns.map fun c => out.get? c.1

theorem cells_projectOn {scope : Scope} {columns shown : List (String × ColumnSource)}
    (hnames : (columns.map Prod.fst).Nodup) {row out : Row} (h : projectOn scope columns row = .ok out)
    (hshown : shown ⊆ columns) : cells shown out = (shown.map Prod.snd).map (·.cellOn scope row) := by
  unfold cells
  rw [List.map_map]
  exact List.map_congr_left fun c hc => get?_projectOn_of_mem hnames h (hshown hc)

/-- A row is shown where all sources have values. -/
theorem exists_projectOn {scope : Scope} {columns : List (String × ColumnSource)} {row : Row} :
    (∃ out, projectOn scope columns row = .ok out) ↔
      ∀ source ∈ columns.map Prod.snd, ∃ v, source.valueOn scope row = .ok v := by
  have hentry : ∀ column, (∃ e, entryOn scope row column = .ok e) ↔ ∃ v, column.2.valueOn scope row = .ok v :=
    fun _ => exists_bind_ok
  unfold projectOn
  rw [List.forall_mem_map]
  refine exists_bind_ok.trans (exists_mapM.trans ?_)
  simp only [hentry]

theorem Row.ofList_concat (es : List (String × Value)) (name : String) (v : Value) :
    Row.ofList (es ++ [(name, v)]) = (Row.ofList es).insert name v := by
  have hentries : Entries.ofList (es ++ [(name, v)]) = Entries.insert (Entries.ofList es) name v := by
    unfold Entries.ofList Entries.overlay
    rw [List.foldl_append]
    rfl
  unfold Row.ofList Row.insert
  congr

/-- One more column behind the others sets one more value, which may fail after all of them. -/
theorem projectOn_concat (scope : Scope) (columns : List (String × ColumnSource)) (name : String)
    (source : ColumnSource) (row : Row) :
    projectOn scope (columns ++ [(name, source)]) row = do
      let out ← projectOn scope columns row
      let v ← source.valueOn scope row
      return out.insert name v.shown := by
  unfold projectOn
  rw [List.mapM_append]
  cases columns.mapM (entryOn scope row) with
  | error fault => rfl
  | ok entries =>
    rw [List.mapM_cons, List.mapM_nil]
    unfold entryOn
    cases source.valueOn scope row with
    | error fault => rfl
    | ok v => exact congrArg Except.ok (Row.ofList_concat entries name v.shown)

/-! ## Names -/

theorem freshName_of_notMem {used : List String} {name : String} (h : name ∉ used) : freshName used name = name :=
  if_neg h

theorem numbered_injective (name : String) : Function.Injective fun n : Nat => name ++ "_" ++ toString n := by
  intro m n h
  have htext : toString m = toString n := (String.append_right_inj _).mp h
  have hdigits : Nat.toDigits 10 m = Nat.toDigits 10 n := by
    simpa using congrArg String.toList htext
  have hread : Nat.ofDigitChars 10 (Nat.toDigits 10 m) 0 = Nat.ofDigitChars 10 (Nat.toDigits 10 n) 0 := by
    rw [hdigits]
  simpa using hread

/-- Among one more numbers than there are names, some number makes the name new. -/
theorem freshName_notMem (used : List String) (name : String) : freshName used name ∉ used := by
  unfold freshName
  split
  · cases hfound : ((List.range (used.length + 1)).map fun i => name ++ "_" ++ toString (i + 2)).find? (· ∉ used) with
    | some candidate =>
      show (List.find? _ _).getD name ∉ used
      rw [hfound]
      simpa using List.find?_some hfound
    | none =>
      have hnodup : ((List.range (used.length + 1)).map fun i => name ++ "_" ++ toString (i + 2)).Nodup :=
        List.Nodup.map ((numbered_injective name).comp fun _ _ => Nat.add_right_cancel) List.nodup_range
      have hlength := hnodup.length_le_of_subset fun c hc => by simpa using List.find?_eq_none.mp hfound c hc
      rw [List.length_map, List.length_range] at hlength
      omega
  · assumption

theorem uniqueNames_notMem (used names : List String) : ∀ name ∈ uniqueNames used names, name ∉ used := by
  induction names generalizing used with
  | nil => simp [uniqueNames]
  | cons first names ih =>
    intro name hname
    rcases List.mem_cons.mp hname with rfl | hname
    · exact freshName_notMem used first
    · exact fun hused => ih _ name hname (List.mem_cons_of_mem _ hused)

/-- No two columns of a result have one name. -/
theorem nodup_uniqueNames (used names : List String) : (uniqueNames used names).Nodup := by
  induction names generalizing used with
  | nil => exact List.nodup_nil
  | cons first names ih =>
    refine List.nodup_cons.mpr ⟨fun hmem => ?_, ih _⟩
    exact uniqueNames_notMem _ names _ hmem List.mem_cons_self

/-- Names that are all different, and none of them used, stay as they are. -/
theorem uniqueNames_of_nodup {used names : List String} (hnames : names.Nodup) (hused : ∀ name ∈ names, name ∉ used) :
    uniqueNames used names = names := by
  induction names generalizing used with
  | nil => rfl
  | cons name names ih =>
    obtain ⟨hname, hnames⟩ := List.nodup_cons.mp hnames
    obtain ⟨hnew, hused⟩ := List.forall_mem_cons.mp hused
    have hrest : ∀ other ∈ names, other ∉ name :: used := by
      intro other hother hmem
      rcases List.mem_cons.mp hmem with rfl | hmem
      · exact hname hother
      · exact hused other hother hmem
    rw [uniqueNames, freshName_of_notMem hnew, ih hnames hrest]

/-- Names behind others are made new beside them, and the others stay as they are. -/
theorem uniqueNames_append (used front names : List String) :
    uniqueNames used (front ++ names) =
      uniqueNames used front ++ uniqueNames ((uniqueNames used front).reverse ++ used) names := by
  induction front generalizing used with
  | nil => rfl
  | cons first front ih => simp [uniqueNames, ih]

theorem uniqueNames_concat (used names : List String) (name : String) :
    uniqueNames used (names ++ [name]) =
      uniqueNames used names ++ [freshName ((uniqueNames used names).reverse ++ used) name] :=
  uniqueNames_append used names [name]

theorem length_uniqueNames (used names : List String) : (uniqueNames used names).length = names.length := by
  induction names generalizing used with
  | nil => rfl
  | cons name names ih => simp [uniqueNames, ih]

/-- A name made new is the name itself, or the name with a number behind it. -/
theorem freshName_cases (used : List String) (name : String) :
    freshName used name = name ∨ ∃ n : Nat, freshName used name = name ++ "_" ++ toString n := by
  unfold freshName
  split
  · simp only []
    cases h : ((List.range (used.length + 1)).map fun i => name ++ "_" ++ toString (i + 2)).find? (· ∉ used) with
    | none => exact .inl rfl
    | some candidate =>
      obtain ⟨i, _, rfl⟩ := List.mem_map.mp (List.mem_of_find?_eq_some h)
      exact .inr ⟨i + 2, rfl⟩
  · exact .inl rfl

theorem dot_notMem_freshName {name : String} (h : '.' ∉ name.toList) (used : List String) :
    '.' ∉ (freshName used name).toList := by
  rcases freshName_cases used name with hname | ⟨n, hname⟩
  · rwa [hname]
  · have hdigits : '.' ∉ (toString n).toList := by
      intro hmem
      have hlist : (toString n).toList = Nat.toDigits 10 n := String.toList_ofList
      rw [hlist] at hmem
      exact absurd (Nat.isDigit_of_mem_toDigits (by decide) (by decide) hmem) (by decide)
    rw [hname]
    simpa [h] using hdigits

/-! ## The columns of a plan -/

section Columns

variable {registry : Registry} {plan : Plan} {rows : List Row}

theorem nodup_columns (registry : Registry) (plan : Plan) (rows : List Row) :
    ((plan.columns registry rows).map Prod.fst).Nodup := by
  unfold Plan.columns
  rw [List.map_fst_zip (by simp [length_uniqueNames])]
  exact nodup_uniqueNames ..

theorem map_snd_columns (registry : Registry) (plan : Plan) (rows : List Row) :
    (plan.columns registry rows).map Prod.snd =
      (plan.select.flatMap fun item => item.sources (plan.starColumns registry rows)).map Prod.snd := by
  unfold Plan.columns
  rw [List.map_snd_zip (by simp [length_uniqueNames])]

theorem exists_item_of_mem {c : String × ColumnSource} (hc : c ∈ plan.columns registry rows) :
    ∃ item ∈ plan.select, ∃ name, (name, c.2) ∈ item.sources (plan.starColumns registry rows) := by
  have hsource : c.2 ∈ (plan.columns registry rows).map Prod.snd := List.mem_map_of_mem hc
  rw [map_snd_columns, List.mem_map] at hsource
  obtain ⟨⟨name, source⟩, hmem, rfl⟩ := hsource
  obtain ⟨item, hitem, hmem⟩ := List.mem_flatMap.mp hmem
  exact ⟨item, hitem, name, hmem⟩

/-- What an item holds whose columns have the source. -/
def ColumnSource.ComesFrom (content : Selected) (stars : List String) : ColumnSource → Prop
  | starred key => content = .star ∧ key ∈ stars
  | rank _ => ∃ w, content = .window w
  | column name => content = .expr (.column name)
  | expr e => content = .expr e

theorem comesFrom_of_mem {item : SelectItem} {stars : List String} {c : String × ColumnSource} (h : c ∈ item.sources stars) :
    c.2.ComesFrom item.content stars := by
  unfold SelectItem.sources at h
  split at h
  · rename_i hcontent
    obtain ⟨key, hkey, rfl⟩ := List.mem_map.mp h
    exact ⟨hcontent, hkey⟩
  · rename_i w hcontent
    obtain rfl := List.mem_singleton.mp h
    exact ⟨w, hcontent⟩
  all_goals
    rename_i hcontent
    obtain rfl := List.mem_singleton.mp h
    exact hcontent

/-- A column that is evaluated is an item of the select list. -/
theorem exists_item_of_expr {name : String} {e : Expr} (hc : (name, .expr e) ∈ plan.columns registry rows) :
    ∃ item ∈ plan.select, item.content = .expr e := by
  obtain ⟨item, hitem, name, hmem⟩ := exists_item_of_mem hc
  exact ⟨item, hitem, comesFrom_of_mem hmem⟩

/-- A window that is ranked is an item of the select list. -/
theorem exists_item_of_window {select : List SelectItem} {x : String × Window} (hx : x ∈ windowItems select) :
    ∃ item ∈ select, item.content = .window x.2 := by
  obtain ⟨item, hitem, hw⟩ := List.mem_filterMap.mp hx
  split at hw
  · rename_i w hcontent
    cases hw
    exact ⟨item, hitem, hcontent⟩
  · cases hw

end Columns

end JsonTables
