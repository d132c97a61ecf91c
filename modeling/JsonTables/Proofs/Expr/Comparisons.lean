/-
  JsonTables.Proofs.Expr.Comparisons — what the comparisons of two expressions say of a row.

  Each comparison is tested on its own, so that `=`, `<` and `>` single out one case, that the others are made of
  these, and that an exchange of the operands does no more than turn the signs round are laws of six tests beside one
  another. They hold of values of all kinds, because every pair of values that are there has one of three places in
  the order and loses nothing by being turned round. A missing value has no place in it. An expression whose
  arithmetic ends in a fault has no value, and then none of the comparisons holds or fails.

  Proved:
  - `Comparison.holds_partitions`: the comparisons of two values exclude and exhaust one another.
  - `Comparison.holds_mirror`: the values exchanged, and the sign turned round.
  - `Predicate.comparisons_partition`: so do those of two expressions on a row, whatever was noted before.
-/

import JsonTables.Proofs.Expr.Unknown
import JsonTables.Proofs.Value.Comparison

namespace JsonTables

/-! ## Comparisons of values -/

namespace Comparison

/-- The comparison that says the same of the operands exchanged; there is none for `CONTAINS`. -/
def mirror? : Comparison → Option Comparison
  | equal => some equal
  | notEqual => some notEqual
  | less => some greater
  | lessEqual => some greaterEqual
  | greater => some less
  | greaterEqual => some lessEqual
  | contains => none

/-- How the comparisons of two values go together, where `holds` says which of them hold. -/
structure Partitions (a b : Value) (holds : Comparison → Bool) : Prop where
  unequal : holds notEqual = !holds equal
  ordered : a.isMissing = false → b.isMissing = false →
    [holds less, holds equal, holds greater].count true = 1 ∧
      holds lessEqual = !holds greater ∧ holds greaterEqual = !holds less
  unordered : a.isMissing = true ∨ b.isMissing = true →
    (∀ op ∈ [less, lessEqual, greater, greaterEqual], holds op = false) ∧
      (holds equal = true ↔ a.isMissing = true ∧ b.isMissing = true)

/-- Whether a comparison holds at a place in the order. -/
def admits : Comparison → Ordering → Bool
  | equal, o => o == .eq
  | notEqual, o => o != .eq
  | less, o => o == .lt
  | lessEqual, o => o != .gt
  | greater, o => o == .gt
  | greaterEqual, o => o != .lt
  | contains, _ => false

/-- Whether a comparison holds where a value is missing, and perhaps both are. -/
def admitsMissing (both : Bool) : Comparison → Bool
  | equal => both
  | notEqual => !both
  | _ => false

variable {op op' : Comparison} {a b : Value}

/-- Values that are there are compared by their place in the order. -/
theorem holds_of_present (hop : op ≠ contains) (ha : a.isMissing = false) (hb : b.isMissing = false) :
    op.holds a b = op.admits (a.compare b) := by
  have hpresent : ¬(a.isMissing || b.isMissing) = true := by simp [ha, hb]
  cases op with
  | contains => exact absurd rfl hop
  | _ => exact if_neg hpresent

/-- What is missing is told by `=` and `!=` alone. -/
theorem holds_of_missing (hop : op ≠ contains) (h : a.isMissing = true ∨ b.isMissing = true) :
    op.holds a b = op.admitsMissing (a.isMissing && b.isMissing) := by
  have hmissing : (a.isMissing || b.isMissing) = true := by simpa using h
  cases op with
  | contains => exact absurd rfl hop
  | _ => exact if_pos hmissing

theorem holds_partitions (a b : Value) : Partitions a b fun op => op.holds a b := by
  by_cases h : a.isMissing = true ∨ b.isMissing = true
  · have hall (op : Comparison) (hop : op ≠ contains) := holds_of_missing hop h
    refine ⟨?_, fun ha hb => ?_, fun _ => ⟨?_, ?_⟩⟩
    · rw [hall notEqual (by decide), hall equal (by decide)]
      rfl
    · simp [ha, hb] at h
    · intro op hop
      simp only [List.mem_cons, List.not_mem_nil, or_false] at hop
      rcases hop with rfl | rfl | rfl | rfl <;> exact hall _ (by decide)
    · rw [hall equal (by decide), admitsMissing, Bool.and_eq_true]
  · simp only [not_or, Bool.not_eq_true] at h
    have hall (op : Comparison) (hop : op ≠ contains) := holds_of_present hop h.1 h.2
    refine ⟨?_, fun _ _ => ?_, fun hmissing => ?_⟩
    · rw [hall notEqual (by decide), hall equal (by decide)]
      rfl
    · rw [hall less (by decide), hall equal (by decide), hall greater (by decide), hall lessEqual (by decide),
        hall greaterEqual (by decide)]
      cases a.compare b <;> decide
    · simp [h.1, h.2] at hmissing

/-- What is not a number is greater than a numeral and equal to itself. -/
example :
    let nan := Value.number (.float .nan)
    nan.isMissing = false ∧ equal.holds nan nan = true ∧ greater.holds nan (.text "2") = true := by
  decide +kernel

theorem mirror?_ne_contains (h : op.mirror? = some op') : op ≠ contains ∧ op' ≠ contains := by
  cases op <;> cases h <;> decide

/-- The values exchanged, and the sign turned round. -/
theorem holds_mirror (h : op.mirror? = some op') (a b : Value) : op'.holds b a = op.holds a b := by
  obtain ⟨hop, hop'⟩ := mirror?_ne_contains h
  by_cases hmissing : a.isMissing = true ∨ b.isMissing = true
  · rw [holds_of_missing hop hmissing, holds_of_missing hop' hmissing.symm, Bool.and_comm]
    cases op <;> cases h <;> rfl
  · simp only [not_or, Bool.not_eq_true] at hmissing
    rw [holds_of_present hop hmissing.1 hmissing.2, holds_of_present hop' hmissing.2 hmissing.1, Value.compare_swap b a]
    cases op <;> cases h <;> cases a.compare b <;> rfl

end Comparison

/-! ## Comparisons of expressions -/

namespace Predicate

open Comparison Evaluation

variable {scope : Scope} {row : Row}

/-- The left side is evaluated first, and then the right one. -/
theorem start_compare (op : Comparison) (x y : Expr) (journal : Journal) :
    (((compare op x y).test scope row).start journal).1 =
      x.valueOn scope row >>= fun a => y.valueOn scope row >>= fun b => .ok (op.holds a b) := by
  have hright : ∀ a, Steady (y.eval scope row >>= fun b => pure (op.holds a b)) := fun a =>
    (y.steady_eval scope row).bind fun b => steady_pure _
  unfold test
  rw [start_bind_fst (x.steady_eval scope row) hright]
  congr 1
  funext a
  rw [outcome_bind (y.steady_eval scope row) fun b => steady_pure _]
  rfl

theorem start_compare_of_values {op : Comparison} {x y : Expr} {a b : Value} (hx : x.valueOn scope row = .ok a)
    (hy : y.valueOn scope row = .ok b) (journal : Journal) :
    (((compare op x y).test scope row).start journal).1 = .ok (op.holds a b) := by
  rw [start_compare, hx, hy]
  rfl

/-- Without a value on one of the sides no comparison has an outcome. -/
theorem start_compare_of_fault {op : Comparison} {x y : Expr} {fault : Fault}
    (h : x.valueOn scope row = .error fault ∨ y.valueOn scope row = .error fault) (journal : Journal) :
    ∃ fault, (((compare op x y).test scope row).start journal).1 = .error fault := by
  rw [start_compare]
  rcases hx : x.valueOn scope row with fault' | a
  · exact ⟨fault', rfl⟩
  · have hy := h.resolve_left (by simp [hx])
    exact ⟨fault, by rw [hy]; rfl⟩

/-- For all expressions on every row: either both have values, of whatever kinds, and the comparisons of the
expressions partition these values and turn round with them, or one of the expressions ends in a fault, and then so
do all comparisons. -/
theorem comparisons_partition (scope : Scope) (row : Row) (x y : Expr) :
    (∃ a b holds, x.valueOn scope row = .ok a ∧ y.valueOn scope row = .ok b ∧ Partitions a b holds ∧
      ∀ op journal, (((compare op x y).test scope row).start journal).1 = .ok (holds op) ∧
        ∀ op', op.mirror? = some op' → (((compare op' y x).test scope row).start journal).1 = .ok (holds op)) ∨
    (∃ fault, x.valueOn scope row = .error fault ∨ y.valueOn scope row = .error fault) ∧
      ∀ op journal, (∃ fault, (((compare op x y).test scope row).start journal).1 = .error fault) ∧
        ∃ fault, (((compare op y x).test scope row).start journal).1 = .error fault := by
  have hfault {fault : Fault} (h : x.valueOn scope row = .error fault ∨ y.valueOn scope row = .error fault) :
      ∀ op journal, (∃ fault, (((compare op x y).test scope row).start journal).1 = .error fault) ∧
        ∃ fault, (((compare op y x).test scope row).start journal).1 = .error fault :=
    fun op journal => ⟨start_compare_of_fault h journal, start_compare_of_fault h.symm journal⟩
  rcases hx : x.valueOn scope row with fault | a
  · exact .inr ⟨⟨fault, .inl rfl⟩, hfault (.inl hx)⟩
  · rcases hy : y.valueOn scope row with fault | b
    · exact .inr ⟨⟨fault, .inr rfl⟩, hfault (.inr hy)⟩
    · refine .inl ⟨a, b, fun op => op.holds a b, rfl, rfl, holds_partitions a b, fun op journal => ?_⟩
      refine ⟨start_compare_of_values hx hy journal, fun op' hop' => ?_⟩
      rw [start_compare_of_values hy hx journal, holds_mirror hop']

end Predicate

end JsonTables
