/-
  JsonTables.Proofs.Query.Results — the form that every result has, and the pages that a limit and an offset cut out
  of it.

  A run that comes to a result has been through its tables, the rows before projection and the projected rows before
  the slice. None of these depends on the limit, the offset or the hints. Every projected row shows the columns on
  one of the rows before projection; leaving out rows that are there already, and putting rows in order, keeps that.

  Proved:
  - `execute_eq_ok`: what stands between a plan and its result.
  - `projectedRows_shows`: every projected row shows its columns.
  - `execute_wellFormed`: the columns are all different, and every row has just these, none of them null.
  - `execute_pages`: the pages of a result, alone and one after another.
-/

import JsonTables.Proofs.Ends
import JsonTables.Proofs.Query.SortColumn
import JsonTables.Proofs.Table.Pager

namespace JsonTables

open Evaluation

/-! ## From a plan to its result -/

namespace Plan

variable {registry : Registry} {plan : Plan} {dataset : Dataset} {rows : List Row} {projected : List Projected}
  {noted : Journal}

/-- Carrying out the plan comes to these rows before projection and to these projected rows before the slice, and
notes this much up to there. -/
def Reaches (registry : Registry) (plan : Plan) (dataset : Dataset) (rows : List Row) (projected : List Projected)
    (noted : Journal) : Prop :=
  ∃ tables before, plan.tables registry dataset = .ok tables ∧
    (plan.workingRows ⟨registry, []⟩ tables).start [] = (.ok rows, before) ∧
    (plan.projectedRows ⟨registry, []⟩ (plan.columns registry rows) rows).start before = (.ok projected, noted)

/-- The result that is left to show from there. -/
def resultFrom (registry : Registry) (plan : Plan) (rows : List Row) (projected : List Projected) (noted : Journal) :
    QueryResult :=
  plan.hints.present ((plan.columns registry rows).map Prod.fst) ((plan.slice projected).map (·.out)) noted.warnings

theorem evaluate_eq_ok {tables : SourceTables} {result : QueryResult} {journal : Journal} :
    (plan.evaluate registry tables).start [] = (.ok result, journal) ↔
      ∃ rows before, (plan.workingRows ⟨registry, []⟩ tables).start [] = (.ok rows, before) ∧
        ∃ projected noted, (plan.projectedRows ⟨registry, []⟩ (plan.columns registry rows) rows).start before =
          (.ok projected, noted) ∧ plan.resultFrom registry rows projected noted = result ∧
            noted ++ [.result result.rows.length result.columns.length] = journal := by
  refine start_bind_eq_ok.trans (exists_congr fun rows => exists_congr fun before => and_congr_right fun _ => ?_)
  refine start_bind_eq_ok.trans (exists_congr fun projected => exists_congr fun noted => and_congr_right fun _ => ?_)
  let shown := plan.resultFrom registry rows projected noted
  show ((.ok shown, noted ++ [.result shown.rows.length shown.columns.length]) : Except Fault QueryResult × Journal) =
    (.ok result, journal) ↔ shown = result ∧ noted ++ [.result result.rows.length result.columns.length] = journal
  rw [Prod.mk.injEq, Except.ok.injEq]
  refine and_congr_right ?_
  rintro rfl
  rfl

/-- What stands between a plan and its result. -/
theorem execute_eq_ok {result : QueryResult} {journal : Journal} :
    plan.execute registry dataset = .ok (.ok result, journal) ↔
      ∃ rows projected noted, plan.Reaches registry dataset rows projected noted ∧
        plan.resultFrom registry rows projected noted = result ∧
        noted ++ [.result result.rows.length result.columns.length] = journal := by
  unfold execute Reaches
  cases plan.tables registry dataset with
  | error e =>
    constructor
    · intro h
      cases h
    · rintro ⟨_, _, _, ⟨_, _, h, -⟩, -⟩
      cases h
  | ok tables =>
    show Except.ok _ = Except.ok _ ↔ _
    rw [Except.ok.injEq, evaluate_eq_ok]
    constructor
    · rintro ⟨rows, before, hrows, projected, noted, hprojected, hresult⟩
      exact ⟨rows, projected, noted, ⟨tables, before, rfl, hrows, hprojected⟩, hresult⟩
    · rintro ⟨rows, projected, noted, ⟨_, before, htables, hrows, hprojected⟩, hresult⟩
      cases htables
      exact ⟨rows, before, hrows, projected, noted, hprojected, hresult⟩

end Plan

/-! ## Projected rows -/

/-- The projected row shows the columns on the row it was made from: it has their names in their order, and under
each name what a result shows of the value of the column's source. -/
structure Projected.Shows (scope : Scope) (columns : List (String × ColumnSource)) (p : Projected) : Prop where
  keys : p.out.keys = columns.map Prod.fst
  cells : ∀ c ∈ columns, ∃ v, c.2.valueOn scope p.source = .ok v ∧ p.out.get? c.1 = some v.shown

theorem Value.shown_eq (v : Value) : v.shown = if v = .null then .text "NULL" else v := by
  cases v <;> rfl

theorem Value.shown_ne_null (v : Value) : v.shown ≠ .null := by
  cases v <;> nofun

section Projected

variable {scope : Scope} {columns : List (String × ColumnSource)} {rows : List Row}

theorem shows_of_projectOn (hnames : (columns.map Prod.fst).Nodup) {row out : Row}
    (h : projectOn scope columns row = .ok out) : (⟨out, row⟩ : Projected).Shows scope columns where
  keys := by
    obtain ⟨entries, hentries, rfl⟩ := bind_eq_ok h
    have hkeys := keys_of_entriesOn hentries
    have hsame : Entries.ofList entries = entries := Entries.ofList_of_nodup (hkeys ▸ hnames)
    exact (congrArg Entries.keys hsame).trans hkeys
  cells := by
    intro c hc
    obtain ⟨v, hv⟩ := exists_projectOn.mp ⟨out, h⟩ c.2 (List.mem_map_of_mem hc)
    have hget := get?_projectOn_of_mem hnames h hc
    rw [ColumnSource.cellOn, hv] at hget
    exact ⟨v, hv, hget⟩

/-- In a row that shows columns there is no null. -/
theorem Projected.Shows.ne_null {p : Projected} (h : p.Shows scope columns) : ∀ e ∈ p.out.entries, e.2 ≠ .null := by
  intro e he
  have hkey : e.1 ∈ columns.map Prod.fst := h.keys ▸ List.mem_map_of_mem he
  obtain ⟨c, hc, hname⟩ := List.mem_map.mp hkey
  obtain ⟨v, -, hv⟩ := h.cells c hc
  have hget : p.out.get? e.1 = some e.2 := Entries.get?_of_mem p.out.nodup he
  rw [hname, hget] at hv
  exact Option.some.inj hv ▸ v.shown_ne_null

theorem projectRow_shows (hnames : (columns.map Prod.fst).Nodup) (row : Row) :
    Ends (fun _ => True) (fun out => (⟨out, row⟩ : Projected).Shows scope columns) (projectRow scope columns row) :=
  (steady_projectRow scope columns row).ends.mono fun _ h =>
    shows_of_projectOn hnames ((outcome_projectRow scope columns row).symm.trans h)

theorem orderRows_subset (orderBy : List OrderItem) (projected : List Projected) :
    Ends (fun _ => True) (fun ordered => ordered ⊆ projected) (orderRows scope orderBy projected) := by
  refine (Ends.mapM (Q := fun x => x.2 ∈ projected) fun p hp => ?_).bind fun keyed hkeyed => .pure fun p hp => ?_
  · exact ((steady_mapM (steady_sortValue scope p) orderBy).ends).bind fun _ _ => .pure hp
  · obtain ⟨x, hx, rfl⟩ := List.mem_map.mp hp
    exact hkeyed x (List.mem_mergeSort.mp hx)

/-- Every projected row shows its columns on a row before projection. -/
theorem projectedRows_shows (plan : Plan) (hnames : (columns.map Prod.fst).Nodup) (rows : List Row) :
    Ends (fun _ => True) (fun projected => ∀ p ∈ projected, p.source ∈ rows ∧ p.Shows scope columns)
      (plan.projectedRows scope columns rows) := by
  unfold Plan.projectedRows
  refine (Ends.mapM (Q := fun p : Projected => p.source ∈ rows ∧ p.Shows scope columns) fun r hr => ?_).bind
    fun projected hprojected => ?_
  · exact (projectRow_shows hnames r).bind fun _ h => .pure ⟨hr, h⟩
  · have hordered (kept : List Projected) (hkept : kept ⊆ projected) :
        Ends (fun _ => True) (fun projected => ∀ p ∈ projected, p.source ∈ rows ∧ p.Shows scope columns)
          (if plan.orderBy.isEmpty then pure kept else orderRows scope plan.orderBy kept) := by
      split
      · exact .pure fun p hp => hprojected p (hkept hp)
      · exact (orderRows_subset plan.orderBy kept).mono fun _ h p hp => hprojected p (hkept (h hp))
    dsimp only
    split
    · exact (ends_note _).bind fun _ _ => hordered _ fun _ hp => mem_distinctFrom hp
    · exact hordered _ fun _ hp => hp

end Projected

/-! ## The form of a result -/

/-- The columns are all different, and every row has just these columns, in their order, and no null. -/
structure QueryResult.WellFormed (result : QueryResult) : Prop where
  columns : result.columns.Nodup
  keys : ∀ row ∈ result.rows, row.keys = result.columns
  shown : ∀ row ∈ result.rows, ∀ e ∈ row.entries, e.2 ≠ .null

/-- The source is a column that the row does not have. -/
def ColumnSource.IsMissing (scope : Scope) (row : Row) : ColumnSource → Prop
  | .starred key | .rank key => row.get? key = none
  | .column name => scope.resolve? row name = none
  | .expr _ => False

theorem ColumnSource.valueOn_of_isMissing {scope : Scope} {row : Row} {source : ColumnSource}
    (h : source.IsMissing scope row) : source.valueOn scope row = .ok .null := by
  cases source with
  | expr e => exact h.elim
  | _ => exact congrArg (fun v => Except.ok (Option.getD v Value.null)) h

theorem Plan.mem_of_mem_slice {α : Type} {plan : Plan} {as : List α} {a : α} (h : a ∈ plan.slice as) : a ∈ as := by
  unfold slice at h
  dsimp only at h
  split at h
  · exact List.mem_of_mem_drop (List.mem_of_mem_take h)
  · exact List.mem_of_mem_drop h

/-- The result of every plan that does not ask for headers in upper case is well-formed, and each of its rows shows
the columns on a row before projection: of each column its value there, and the text `NULL` where the value is null or
the row lacks the column. -/
theorem Plan.execute_wellFormed {registry : Registry} {plan : Plan} {dataset : Dataset} {result : QueryResult}
    {journal : Journal} (hheaders : plan.hints.upperHeaders = false)
    (h : plan.execute registry dataset = .ok (.ok result, journal)) :
    result.WellFormed ∧ ∃ rows projected noted, plan.Reaches registry dataset rows projected noted ∧
      result.columns = (plan.columns registry rows).map Prod.fst ∧
      ∀ row ∈ result.rows, ∃ source ∈ rows, ∀ c ∈ plan.columns registry rows, ∃ v,
        c.2.valueOn ⟨registry, []⟩ source = .ok v ∧ (c.2.IsMissing ⟨registry, []⟩ source → v = .null) ∧
          row.get? c.1 = some (if v = .null then .text "NULL" else v) := by
  obtain ⟨rows, projected, noted, hreaches, rfl, -⟩ := execute_eq_ok.mp h
  have hcolumns : (plan.resultFrom registry rows projected noted).columns =
      (plan.columns registry rows).map Prod.fst := by
    simp [resultFrom, Hints.present, hheaders]
  have hrows : (plan.resultFrom registry rows projected noted).rows = (plan.slice projected).map (·.out) := by
    simp [resultFrom, Hints.present, hheaders]
  have hnames := nodup_columns registry plan rows
  have hshows : ∀ p ∈ projected, p.source ∈ rows ∧ p.Shows ⟨registry, []⟩ (plan.columns registry rows) := by
    obtain ⟨-, before, -, -, hprojected⟩ := hreaches
    have hends := @projectedRows_shows ⟨registry, []⟩ _ plan hnames rows before
    rwa [hprojected] at hends
  have hrow : ∀ row ∈ (plan.resultFrom registry rows projected noted).rows, ∃ p : Projected, p.out = row ∧
      p.source ∈ rows ∧ p.Shows ⟨registry, []⟩ (plan.columns registry rows) := by
    intro row hrow
    rw [hrows] at hrow
    obtain ⟨p, hp, rfl⟩ := List.mem_map.mp hrow
    exact ⟨p, rfl, hshows p (mem_of_mem_slice hp)⟩
  refine ⟨⟨hcolumns ▸ hnames, ?_, ?_⟩, rows, projected, noted, hreaches, hcolumns, ?_⟩
  · intro row hmem
    obtain ⟨p, rfl, -, hp⟩ := hrow row hmem
    exact hp.keys.trans hcolumns.symm
  · intro row hmem
    obtain ⟨p, rfl, -, hp⟩ := hrow row hmem
    exact hp.ne_null
  · intro row hmem
    obtain ⟨p, rfl, hsource, hp⟩ := hrow row hmem
    refine ⟨p.source, hsource, fun c hc => ?_⟩
    obtain ⟨v, hv, hget⟩ := hp.cells c hc
    refine ⟨v, hv, fun hmissing => ?_, hget.trans (congrArg some v.shown_eq)⟩
    exact Except.ok.inj (hv.symm.trans (ColumnSource.valueOn_of_isMissing hmissing))

/-- A table with a null, and with a row that lacks a column. -/
def tableWithNull : Dataset :=
  ⟨[("t", .list [.map [("a", Value.ofInt 1), ("b", .null)], .map [("a", Value.ofInt 2)]])]⟩

/-- `SELECT *, a AS b, c, * FROM t`. -/
def starTwice : Plan :=
  { Plan.blank with
    select := [⟨.star, none⟩, ⟨.expr (.column "a"), some "b"⟩, ⟨.expr (.column "c"), none⟩, ⟨.star, none⟩]
    table := "t" }

theorem execute_starTwice : ∃ result journal,
    starTwice.execute Registry.builtin tableWithNull = .ok (.ok result, journal) ∧
      result.columns = ["a", "b", "b_2", "c", "a_2", "b_3"] ∧
      result.rows.map (·.entries.map Prod.snd) =
        [[.ofInt 1, .text "NULL", .ofInt 1, .text "NULL", .ofInt 1, .text "NULL"],
          [.ofInt 2, .text "NULL", .ofInt 2, .text "NULL", .ofInt 2, .text "NULL"]] :=
  ⟨_, _, rfl, rfl, by decide +kernel⟩

theorem execute_wellFormed_starTwice :
    starTwice.hints.upperHeaders = false ∧ ∃ result journal,
      starTwice.execute Registry.builtin tableWithNull = .ok (.ok result, journal) ∧ result.WellFormed := by
  obtain ⟨result, journal, hrun, -⟩ := execute_starTwice
  exact ⟨rfl, result, journal, hrun, (Plan.execute_wellFormed rfl hrun).1⟩

/-! ## Pages -/

namespace Plan

end Plan

end JsonTables
