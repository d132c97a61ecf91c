/-
  JsonTables.Table.Grid — rows drawn as a grid. Every column is as wide as its widest cell, cells start
  at the left, and a cell that a row lacks is null.
-/

import JsonTables.Row
import JsonTables.Text.Search
import JsonTables.Value.Coercion

namespace JsonTables

/-- The text of a cell. -/
def Value.cellText : Value → String
  | .null => nullMarker
  | v => v.asText

/-- The text of a row's cell in a column. -/
def Row.cell (r : Row) (column : String) : String := ((r.get? column).getD .null).cellText

namespace Grid

/-- The width of a column. -/
def width (rows : List Row) (column : String) : Nat :=
  (rows.map fun r => (r.cell column).length).foldl max column.length

/-- A line with a text for every column. -/
def line (edge : String) (cells : List String) : String := edge ++ edge.intercalate cells ++ edge

/-- A text in a cell of some width, a blank on either side. -/
def padded (width : Nat) (s : String) : String := " " ++ Text.padRight width s ++ " "

/-- The lines of the grid. -/
def lines (columns : List String) (rows : List Row) : List String :=
  let widths := columns.map (width rows)
  let rule := line "+" (widths.map fun w => String.ofList (List.replicate (w + 2) '-'))
  let content (cells : List String) := line "|" ((widths.zip cells).map fun (w, s) => padded w s)
  [rule, content columns, rule] ++ rows.map (fun r => content (columns.map r.cell)) ++ [rule]

/-- The grid as text. -/
def render (columns : List String) (rows : List Row) : String :=
  if rows.isEmpty then "Empty set" else "\n".intercalate (lines columns rows)

end Grid

end JsonTables
