/-
  JsonTables.Proofs.Table.Grid — what stands where in a grid.

  Every line has one text for each column, with an edge in front of each and behind the last. The texts of a
  column are equally long in all lines: the width of the column and a blank on either side, or as many dashes.
  So the lines are equally long, and a column takes up the same span in each of them. The width is at least
  the length of each cell, wherever the column stands and how often, so no cell is cut off.

  Proved:
  - `width_le_iff`: a column is as wide as its widest text and no wider.
  - `length_line`, `slice_line`: the length of a line, and what stands in the span of a column.
  - `render_aligned`: the grid as text, line by line and column by column.
-/

import JsonTables.Proofs.Expr.Text
import JsonTables.Table.Grid
import Mathlib.Algebra.BigOperators.Group.List.Basic
import Mathlib.Algebra.GroupWithZero.Nat

namespace JsonTables

/-- A cell shows the text of its value, and the marker of null where the row lacks the column. -/
theorem Row.cell_eq (r : Row) (column : String) : r.cell column = (r.get? column).elim "NULL" Value.cellText := by
  unfold Row.cell
  cases r.get? column with
  | none => rfl
  | some v => rfl

namespace Grid

/-! ## Widths -/

theorem foldl_max_le_iff {ns : List Nat} {first bound : Nat} :
    ns.foldl max first ≤ bound ↔ first ≤ bound ∧ ∀ n ∈ ns, n ≤ bound := by
  induction ns generalizing first with
  | nil => simp
  | cons n ns ih =>
    rw [List.foldl_cons, ih, List.forall_mem_cons, Nat.max_le, and_assoc]

/-- A column is as wide as its widest text and no wider. -/
theorem width_le_iff {rows : List Row} {column : String} {bound : Nat} :
    width rows column ≤ bound ↔ column.length ≤ bound ∧ ∀ r ∈ rows, (r.cell column).length ≤ bound := by
  rw [width, foldl_max_le_iff, List.forall_mem_map]

theorem length_le_width (rows : List Row) (column : String) : column.length ≤ width rows column :=
  (width_le_iff.mp (Nat.le_refl _)).1

theorem length_cell_le_width {rows : List Row} {r : Row} (h : r ∈ rows) (column : String) :
    (r.cell column).length ≤ width rows column :=
  (width_le_iff.mp (Nat.le_refl _)).2 r h

/-! ## Lines -/

/-- The texts fill the columns of these widths, with a blank on either side. -/
def Fills (widths : List Nat) (cells : List String) : Prop := cells.map String.length = widths.map (· + 2)

/-- The place at which the span of a column begins. -/
def start (widths : List Nat) (i : Nat) : Nat := 1 + ((widths.take i).map (· + 3)).sum

/-- The length of a line; without columns two edges are left. -/
def lineLength (widths : List Nat) : Nat := 1 + max 1 (widths.map (· + 3)).sum

/-- A line is an edge, and then every text with an edge behind it. -/
theorem toList_line (edge : Char) {cells : List String} (h : cells ≠ []) :
    (line (String.singleton edge) cells).toList = edge :: (cells.map fun s => s.toList ++ [edge]).flatten := by
  have hcells : cells.map String.toList ≠ [] := by simpa using h
  have hends := intercalate_append_sep edge hcells
  rw [List.flatMap_map] at hends
  rw [line, String.toList_append, String.toList_append, String.toList_intercalate, String.toList_singleton,
    List.singleton_append, List.cons_append, hends, List.flatMap_def]

theorem lengths_line {widths : List Nat} {cells : List String} (h : Fills widths cells) (edge : Char) :
    (cells.map fun s => s.toList ++ [edge]).map List.length = widths.map (· + 3) := by
  have hlengths : (cells.map fun s => s.toList ++ [edge]).map List.length = (cells.map String.length).map (· + 1) := by
    simp [String.length_toList]
  rw [hlengths, h, List.map_map]
  rfl

theorem length_line {widths : List Nat} {cells : List String} (h : Fills widths cells) (edge : Char) :
    (line (String.singleton edge) cells).length = lineLength widths := by
  have hlengths : cells.length = widths.length := by simpa using congrArg List.length h
  cases hcells : cells with
  | nil =>
    have hwidths : widths = [] := List.length_eq_zero_iff.mp (by rw [← hlengths, hcells]; rfl)
    rw [hwidths, line, String.length_append, String.length_append, String.intercalate_nil]
    simp [lineLength]
  | cons cell rest =>
    have hsum : 1 ≤ (widths.map (· + 3)).sum := by
      rw [hcells] at hlengths
      obtain ⟨w, ws, hw⟩ := List.exists_cons_of_length_pos (show 0 < widths.length by rw [← hlengths]; simp)
      rw [hw, List.map_cons, List.sum_cons]
      omega
    have hne : cell :: rest ≠ [] := List.cons_ne_nil cell rest
    rw [hcells] at h
    rw [← String.length_toList, toList_line edge hne, List.length_cons, List.length_flatten, lengths_line h, lineLength,
      Nat.max_eq_right hsum, Nat.add_comm]

/-- In the span of a column stands its text. -/
theorem slice_line {widths : List Nat} {cells : List String} (h : Fills widths cells) (edge : Char) {i w : Nat}
    {s : String} (hw : widths[i]? = some w) (hs : cells[i]? = some s) :
    Text.slice (line (String.singleton edge) cells).toList (start widths i) (start widths i + (w + 2)) = s.toList := by
  obtain ⟨hi, rfl⟩ := List.getElem?_eq_some_iff.mp hs
  have hcells : cells ≠ [] := List.ne_nil_of_length_pos (by omega)
  have hlength : cells[i].length = w + 2 := by
    have hget := congrArg (·[i]?) h
    simpa [hw, hi] using hget
  have hstart : start widths i = 1 + (((cells.map fun s => s.toList ++ [edge]).map List.length).take i).sum := by
    rw [lengths_line h, start, List.map_take]
  have hdrop : (cells.map fun s => s.toList ++ [edge]).drop i =
      (cells[i].toList ++ [edge]) :: (cells.drop (i + 1)).map fun s => s.toList ++ [edge] := by
    rw [← List.map_drop, List.drop_eq_getElem_cons hi, List.map_cons]
  rw [Text.slice, Nat.add_sub_cancel_left, toList_line edge hcells, hstart, Nat.add_comm 1, List.drop_succ_cons,
    List.drop_sum_flatten, hdrop, List.flatten_cons, List.append_assoc]
  exact List.take_left' (String.length_toList.trans hlength)

/-! ## The lines of a grid -/

/-- The dashes of a rule. -/
def dashes (widths : List Nat) : List String := widths.map fun w => String.ofList (List.replicate (w + 2) '-')

/-- Some texts in the columns of a grid. -/
def framed (widths : List Nat) (texts : List String) : List String := (widths.zip texts).map fun (w, s) => padded w s

theorem lines_eq (columns : List String) (rows : List Row) :
    let widths := columns.map (width rows)
    lines columns rows = [line "+" (dashes widths), line "|" (framed widths columns), line "+" (dashes widths)] ++
      rows.map (fun r => line "|" (framed widths (columns.map r.cell))) ++ [line "+" (dashes widths)] := rfl

/-- A line of a grid is a rule or holds some texts: the names of the columns or the cells of a row. -/
theorem line_cases {columns : List String} {rows : List Row} {l : String} (h : l ∈ lines columns rows) :
    l = line "+" (dashes (columns.map (width rows))) ∨ l = line "|" (framed (columns.map (width rows)) columns) ∨
      ∃ r ∈ rows, l = line "|" (framed (columns.map (width rows)) (columns.map r.cell)) := by
  rw [lines_eq] at h
  simp only [List.mem_append, List.mem_cons, List.not_mem_nil, or_false, List.mem_map] at h
  rcases h with ((hrule | htop | hrule) | ⟨r, hr, hrow⟩) | hrule
  · exact .inl hrule
  · exact .inr (.inl htop)
  · exact .inl hrule
  · exact .inr (.inr ⟨r, hr, hrow.symm⟩)
  · exact .inl hrule

theorem toList_padded {w : Nat} {s : String} :
    (padded w s).toList = ' ' :: (s.toList ++ List.replicate (w - s.length) ' ' ++ [' ']) := by
  simp [padded, Text.padRight]

theorem fills_dashes (widths : List Nat) : Fills widths (dashes widths) := by
  simp [Fills, dashes, Function.comp_def]

/-- Every text fits into its column. -/
def Fits (widths : List Nat) (texts : List String) : Prop := List.Forall₂ (fun w s => s.length ≤ w) widths texts

theorem fills_framed {widths : List Nat} {texts : List String} (h : Fits widths texts) :
    Fills widths (framed widths texts) := by
  induction h with
  | nil => rfl
  | @cons w s ws ss hle _ ih =>
    have hlength : (padded w s).length = w + 2 := by
      rw [← String.length_toList, toList_padded]
      simp [String.length_toList]
      omega
    unfold Fills framed at ih ⊢
    rw [List.zip_cons_cons, List.map_cons, List.map_cons, List.map_cons, hlength, ih]

theorem fits_columns (columns : List String) (rows : List Row) : Fits (columns.map (width rows)) columns := by
  rw [Fits, List.forall₂_map_left_iff, List.forall₂_same]
  intro column _
  exact length_le_width rows column

theorem fits_cells {columns : List String} {rows : List Row} {r : Row} (h : r ∈ rows) :
    Fits (columns.map (width rows)) (columns.map r.cell) := by
  rw [Fits, List.forall₂_map_left_iff, List.forall₂_map_right_iff, List.forall₂_same]
  intro column _
  exact length_cell_le_width h column

theorem getElem?_dashes {widths : List Nat} {i w : Nat} (hw : widths[i]? = some w) :
    (dashes widths)[i]? = some (String.ofList (List.replicate (w + 2) '-')) := by
  simp [dashes, hw]

theorem getElem?_framed {widths : List Nat} {texts : List String} {i w : Nat} {s : String} (hw : widths[i]? = some w)
    (hs : texts[i]? = some s) : (framed widths texts)[i]? = some (padded w s) := by
  simp [framed, List.zip, List.getElem?_zipWith, hw, hs]

/-! ## The grid as text -/

theorem newline_notMem_line (edge : Char) (hedge : edge ≠ '\n') {cells : List String}
    (hcells : ∀ s ∈ cells, '\n' ∉ s.toList) : '\n' ∉ (line (String.singleton edge) cells).toList := by
  by_cases hne : cells = []
  · subst hne
    simpa [line] using Ne.symm hedge
  · rw [toList_line edge hne]
    intro hmem
    rcases List.mem_cons.mp hmem with he | hmem
    · exact hedge he.symm
    · obtain ⟨piece, hpiece, hmem⟩ := List.mem_flatten.mp hmem
      obtain ⟨s, hs, rfl⟩ := List.mem_map.mp hpiece
      rcases List.mem_append.mp hmem with hmem | hmem
      · exact hcells s hs hmem
      · exact hedge (List.mem_singleton.mp hmem).symm

theorem newline_notMem_dashes {widths : List Nat} : ∀ s ∈ dashes widths, '\n' ∉ s.toList := by
  intro s hs
  obtain ⟨w, _, rfl⟩ := List.mem_map.mp hs
  simp

theorem newline_notMem_framed {widths : List Nat} {texts : List String} (h : ∀ s ∈ texts, '\n' ∉ s.toList) :
    ∀ s ∈ framed widths texts, '\n' ∉ s.toList := by
  intro s hs
  obtain ⟨⟨w, t⟩, ht, rfl⟩ := List.mem_map.mp hs
  rw [toList_padded]
  simpa using h t (List.of_mem_zip ht).2

section

variable {columns : List String} {rows : List Row}

/-- Every line fills the columns of the grid. -/
theorem exists_fills {l : String} (h : l ∈ lines columns rows) :
    ∃ edge cells, l = line (String.singleton edge) cells ∧ Fills (columns.map (width rows)) cells := by
  rcases line_cases h with rfl | rfl | ⟨r, hr, rfl⟩
  · exact ⟨'+', _, rfl, fills_dashes _⟩
  · exact ⟨'|', _, rfl, fills_framed (fits_columns columns rows)⟩
  · exact ⟨'|', _, rfl, fills_framed (fits_cells hr)⟩

variable (hcolumns : ∀ c ∈ columns, '\n' ∉ c.toList) (hcells : ∀ r ∈ rows, ∀ c ∈ columns, '\n' ∉ (r.cell c).toList)

include hcolumns hcells

theorem newline_notMem_lines {l : String} (h : l ∈ lines columns rows) : '\n' ∉ l.toList := by
  rcases line_cases h with rfl | rfl | ⟨r, hr, rfl⟩
  · exact newline_notMem_line '+' (by decide) newline_notMem_dashes
  · exact newline_notMem_line '|' (by decide) (newline_notMem_framed hcolumns)
  · have htexts : ∀ s ∈ columns.map r.cell, '\n' ∉ s.toList := List.forall_mem_map.mpr (hcells r hr)
    exact newline_notMem_line '|' (by decide) (newline_notMem_framed htexts)

/-- The lines of the text are the lines of the grid. -/
theorem splitOn_render (hrows : rows ≠ []) :
    Text.splitOn '\n' (render columns rows).toList = (lines columns rows).map String.toList := by
  have hnotMem : ∀ l ∈ (lines columns rows).map String.toList, '\n' ∉ l :=
    List.forall_mem_map.mpr fun l hl => newline_notMem_lines hcolumns hcells hl
  rw [render, if_neg (by simpa using hrows), splitOn_eq, String.toList_intercalate]
  exact List.splitOn_intercalate '\n' hnotMem (by simp [lines])

end

/-- The grid of some rows is a line for each of them and four more, all equally long. In every line a column takes up
the same span, behind those of the columns in front of it: in the rules it holds dashes, in the header the name, and in
the line of a row the text of its cell, each behind a blank and in front of as many blanks as fill the span, one at
least. The text is there as a whole; where the row lacks the column it is `NULL`. -/
theorem render_aligned {columns : List String} {rows : List Row} (hrows : rows ≠ [])
    (hcolumns : ∀ c ∈ columns, '\n' ∉ c.toList) (hcells : ∀ r ∈ rows, ∀ c ∈ columns, '\n' ∉ (r.cell c).toList) :
    let drawn := Text.splitOn '\n' (render columns rows).toList
    let widths := columns.map (width rows)
    drawn.length = rows.length + 4 ∧ (∀ l ∈ drawn, l.length = lineLength widths) ∧
      ∀ (i : Nat) (column : String), columns[i]? = some column →
        let w := width rows column
        let rule := List.replicate (w + 2) '-'
        let within (s : String) := ' ' :: (s.toList ++ List.replicate (w - s.length) ' ' ++ [' '])
        let shown (r : Row) := (r.get? column).elim "NULL" Value.cellText
        column.length ≤ w ∧ (∀ r ∈ rows, (shown r).length ≤ w) ∧
          drawn.map (fun l => Text.slice l (start widths i) (start widths i + (w + 2))) =
            [rule, within column, rule] ++ rows.map (fun r => within (shown r)) ++ [rule] := by
  intro drawn widths
  have hdrawn : drawn = (lines columns rows).map String.toList := splitOn_render hcolumns hcells hrows
  refine ⟨?_, ?_, ?_⟩
  · simp [hdrawn, lines]
  · rw [hdrawn]
    refine List.forall_mem_map.mpr fun l hl => ?_
    obtain ⟨edge, cells, rfl, hfills⟩ := exists_fills hl
    rw [String.length_toList]
    exact length_line hfills edge
  · intro i column hcolumn w rule within shown
    have hw : widths[i]? = some w := by simp [widths, hcolumn, w]
    have hshown : shown = fun r => r.cell column := funext fun r => (r.cell_eq column).symm
    have hrule : Text.slice (line "+" (dashes widths)).toList (start widths i) (start widths i + (w + 2)) = rule :=
      (slice_line (fills_dashes widths) '+' hw (getElem?_dashes hw)).trans String.toList_ofList
    have hframed {texts : List String} {s : String} (hfits : Fits widths texts) (hs : texts[i]? = some s) :
        Text.slice (line "|" (framed widths texts)).toList (start widths i) (start widths i + (w + 2)) = within s :=
      (slice_line (fills_framed hfits) '|' hw (getElem?_framed hw hs)).trans toList_padded
    refine ⟨length_le_width rows column, ?_, ?_⟩
    · intro r hr
      rw [hshown]
      exact length_cell_le_width hr column
    · have hbody : rows.map (fun r => Text.slice (line "|" (framed widths (columns.map r.cell))).toList (start widths i)
          (start widths i + (w + 2))) = rows.map fun r => within (shown r) := by
        refine List.map_congr_left fun r hr => ?_
        rw [hshown]
        exact hframed (fits_cells hr) (by simp [hcolumn])
      have hheader := hframed (fits_columns columns rows) hcolumn
      rw [hdrawn, List.map_map, lines_eq]
      simp only [List.map_append, List.map_cons, List.map_nil, List.map_map, Function.comp_def]
      rw [hrule, hheader, hbody]

/-- A column that is shown twice, in rows that lack one column each. -/
theorem render_aligned_repeated :
    let columns := ["a", "b", "a"]
    let rows := [Row.ofList [("a", .ofInt 12)], Row.ofList [("b", .text "x")]]
    let drawn := Text.splitOn '\n' (render columns rows).toList
    rows ≠ [] ∧ (∀ c ∈ columns, '\n' ∉ c.toList) ∧ (∀ r ∈ rows, ∀ c ∈ columns, '\n' ∉ (r.cell c).toList) ∧
      drawn.length = 6 ∧ (∀ l ∈ drawn, l.length = 22) ∧
      drawn.map (fun l => Text.slice l 15 21) =
        ["------", " a    ", "------", " 12   ", " NULL ", "------"].map String.toList := by
  intro columns rows drawn
  have hrows : rows ≠ [] := List.cons_ne_nil _ _
  have hcolumns : ∀ c ∈ columns, '\n' ∉ c.toList := by decide +kernel
  have hcells : ∀ r ∈ rows, ∀ c ∈ columns, '\n' ∉ (r.cell c).toList := by decide +kernel
  obtain ⟨hlength, hlengths, hspans⟩ := render_aligned hrows hcolumns hcells
  have hwidth : width rows "a" = 4 := by decide +kernel
  have hspan := (hspans 2 "a" rfl).2.2
  refine ⟨hrows, hcolumns, hcells, hlength, ?_, ?_⟩
  · intro l hl
    rw [hlengths l hl]
    decide +kernel
  · have hstart : start (columns.map (width rows)) 2 = 15 := by decide +kernel
    rw [hstart, hwidth] at hspan
    rw [hspan]
    decide +kernel

end Grid

end JsonTables
