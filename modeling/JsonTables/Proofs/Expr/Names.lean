/-
  JsonTables.Proofs.Expr.Names — the names that an expression reads, and columns set beside them.

  A name stands for the column of that name, else for that of its last segment, else for the first column
  that is qualified and ends in it. So columns set in a row change what a name stands for only if one of
  them comes first in this order, and an expression without aggregate calls has the value of the names in it.

  Proved:
  - `Expr.eval_congr`: rows that agree on the names in an expression give it the same value.
  - `Row.column?_setAll`: columns set beside a name leave what the name stands for.
  - `Expr.eval_setAll`: columns set beside all names in an expression leave its value.
-/

import JsonTables.Expr.Eval
import JsonTables.Proofs.Entries

namespace JsonTables

/-! ## The names in an expression -/

namespace Expr

mutual

/-- The names of columns in an expression. -/
def columnNames : Expr → List String
  | column name => [name]
  | call _ args => columnNamesAll args
  | binary _ left right => columnNames left ++ columnNames right
  | negate operand => columnNames operand
  | _ => []

def columnNamesAll : List Expr → List String
  | [] => []
  | e :: rest => columnNames e ++ columnNamesAll rest

end

variable {scope : Scope} {row row' : Row}

theorem aggregate?_of_not_call {e : Expr} (h : scope.registry.isAggregateCall e = false) (r : Row) :
    r.aggregate? scope.registry e = none := by
  simp [Row.aggregate?, h]

theorem aggregates_eq_nil {registry : Registry} {e : Expr} (h : e.aggregates registry = []) :
    registry.isAggregateCall e = false := by
  unfold aggregates at h
  by_cases hcall : registry.isAggregateCall e = true
  · simp [hcall] at h
  · simpa using hcall

mutual

/-- Without aggregate calls an expression has the value of the names in it. -/
theorem eval_congr : ∀ e : Expr, e.aggregates scope.registry = [] →
    (∀ name ∈ e.columnNames, scope.resolve? row name = scope.resolve? row' name) →
    e.eval scope row = e.eval scope row'
  | .literal l, _, _ => rfl
  | .column name, _, hnames => by
    unfold eval
    rw [hnames name (by simp [columnNames])]
  | .call name args, hnone, hnames => by
    have hcall := aggregates_eq_nil hnone
    have hargs : aggregatesAll scope.registry args = [] := by simpa [aggregates, hcall] using hnone
    unfold eval
    simp only [aggregate?_of_not_call hcall, evalAll_congr args hargs fun n hn => hnames n (by simpa [columnNames] using hn)]
  | .callStar name, hnone, _ => by
    unfold eval
    simp only [aggregate?_of_not_call (aggregates_eq_nil hnone)]
  | .binary op left right, hnone, hnames => by
    have hparts : left.aggregates scope.registry = [] ∧ right.aggregates scope.registry = [] := by
      simpa [aggregates, Registry.isAggregateCall] using hnone
    unfold eval
    rw [eval_congr left hparts.1 fun n hn => hnames n (by simp [columnNames, hn]),
      eval_congr right hparts.2 fun n hn => hnames n (by simp [columnNames, hn])]
  | .negate operand, hnone, hnames => by
    have hpart : operand.aggregates scope.registry = [] := by
      simpa [aggregates, Registry.isAggregateCall] using hnone
    unfold eval
    rw [eval_congr operand hpart fun n hn => hnames n (by simpa [columnNames] using hn)]

theorem evalAll_congr : ∀ es : List Expr, aggregatesAll scope.registry es = [] →
    (∀ name ∈ columnNamesAll es, scope.resolve? row name = scope.resolve? row' name) →
    evalAll scope row es = evalAll scope row' es
  | [], _, _ => rfl
  | e :: rest, hnone, hnames => by
    have hparts : e.aggregates scope.registry = [] ∧ aggregatesAll scope.registry rest = [] := by
      simpa [aggregatesAll] using hnone
    unfold evalAll
    rw [eval_congr e hparts.1 fun n hn => hnames n (by simp [columnNamesAll, hn]),
      evalAll_congr rest hparts.2 fun n hn => hnames n (by simp [columnNamesAll, hn])]

end

end Expr

/-! ## Columns set beside a name -/

namespace Row

/-- Columns of these names, set in the row, do not come before the column that a name stands for: none is of
that name, and none is its last segment or ends in it unless the row has a column that comes before. -/
def Spares (row : Row) (keys : List String) (name : String) : Prop :=
  name ∉ keys ∧ (row.contains name = false → leafOf name ∉ keys ∧
    (row.contains (leafOf name) = false → ∀ key ∈ keys, ¬ ("." ++ leafOf name).toList <:+ key.toList))

instance (row : Row) (keys : List String) (name : String) : Decidable (row.Spares keys name) :=
  inferInstanceAs (Decidable (_ ∧ _))

variable {row : Row} {es : List (String × Value)} {name : String}

theorem get?_setAll (row : Row) (es : List (String × Value)) (name : String) :
    (row.setAll es).get? name = (Entries.get? es.reverse name).or (row.get? name) :=
  Entries.get?_overlay_reverse row.entries es name

theorem get?_setAll_of_notMem (row : Row) (h : name ∉ es.map Prod.fst) : (row.setAll es).get? name = row.get? name := by
  have hnone : Entries.get? es.reverse name = none := by
    refine Entries.get?_eq_none.mpr fun hmem => h ?_
    simpa [Entries.keys] using hmem
  rw [get?_setAll, hnone, Option.none_or]

theorem column?_setAll (h : row.Spares (es.map Prod.fst) name) : (row.setAll es).column? name = row.column? name := by
  obtain ⟨hname, hrest⟩ := h
  have hexact : (row.setAll es).get? name = row.get? name := get?_setAll_of_notMem row hname
  cases hget : row.get? name with
  | some v =>
    unfold column?
    simp only [hexact, hget]
  | none =>
    obtain ⟨hleaf, hends⟩ := hrest (by simp [contains, hget])
    have hlast : (row.setAll es).get? (leafOf name) = row.get? (leafOf name) := get?_setAll_of_notMem row hleaf
    cases hleafGet : row.get? (leafOf name) with
    | some v =>
      unfold column?
      have hne : leafOf name ≠ name := by
        intro heq
        rw [heq, hget] at hleafGet
        cases hleafGet
      simp only [hexact, hget, hlast, hleafGet, hne, ne_eq, not_false_eq_true, if_true]
    | none =>
      have hkeys : ∀ key ∈ Entries.keys es, ("." ++ leafOf name).toList.isSuffixOf key.toList = false := by
        intro key hkey
        have hnot := hends (by simp [contains, hleafGet]) key hkey
        simpa [← List.isSuffixOf_iff_suffix] using hnot
      have hfind := Entries.find?_overlay row.entries hkeys
      unfold column?
      simp only [hexact, hget, hlast, hleafGet, ite_self]
      exact congrArg (Option.map Prod.snd) hfind

theorem resolve?_setAll (scope : Scope) (h : row.Spares (es.map Prod.fst) name) :
    scope.resolve? (row.setAll es) name = scope.resolve? row name := by
  unfold Scope.resolve?
  rw [column?_setAll h]

end Row

theorem Expr.eval_setAll {scope : Scope} {row : Row} {es : List (String × Value)} {e : Expr}
    (hnone : e.aggregates scope.registry = []) (h : ∀ name ∈ e.columnNames, row.Spares (es.map Prod.fst) name) :
    e.eval scope (row.setAll es) = e.eval scope row :=
  Expr.eval_congr e hnone fun name hname => Row.resolve?_setAll scope (h name hname)

end JsonTables
