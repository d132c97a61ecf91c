/-
  JsonTables.Proofs.Value.Order — among values of one kind the comparison of sorting is an order.

  Numbers and numerals are of one kind, and all other values are of another. Two values of one kind
  compare by what they have: their numbers, or their texts. Values of different kinds compare as texts, so
  with both kinds at hand the comparison can run in a circle: 2 before 10, 10 before `1a`, `1a` before 2.

  Proved:
  - `Value.sortCompare_swap`: the comparison of any two values turns round with them.
  - `Value.sortCompare_isLE_trans`: among values of one kind it is transitive.
-/

import JsonTables.Value.Order
import Mathlib.Algebra.Order.Ring.Unbundled.Rat
import Mathlib.Data.String.Basic

namespace JsonTables

/-! ## Numbers and texts -/

/-- What decides between two numbers: whether they are infinite, and then their values. -/
def Number.place (n : Number) : Int × Rat := (n.rank, n.value?.getD 0)

theorem Number.compare_eq (m n : Number) :
    m.compare n = (Ord.compare m.place.1 n.place.1).then (Ord.compare m.place.2 n.place.2) := by
  unfold Number.compare Number.place
  rcases lt_trichotomy m.rank n.rank with h | h | h
  · rw [if_pos h, compare_lt_iff_lt.mpr h]
    rfl
  · rcases lt_trichotomy (m.value?.getD 0) (n.value?.getD 0) with hq | hq | hq
    · simp [h, hq, compare_lt_iff_lt.mpr hq]
    · simp [h, hq]
    · simp [h, hq, hq.not_gt, compare_gt_iff_gt.mpr hq]
  · rw [if_neg h.not_gt, if_pos h, compare_gt_iff_gt.mpr h]
    rfl

instance : Std.TransCmp Number.compare := by
  have h : Number.compare = compareLex (compareOn fun n => n.place.1) (compareOn fun n => n.place.2) :=
    funext₂ Number.compare_eq
  rw [h]
  infer_instance

namespace Value

theorem compareText_eq (s t : String) : compareText s t = Ord.compare s t := by
  unfold compareText
  rcases lt_trichotomy s t with h | h | h
  · rw [if_pos h, compare_lt_iff_lt.mpr h]
  · simp [h]
  · rw [if_neg h.not_gt, if_pos h, compare_gt_iff_gt.mpr h]

/-! ## Values of one kind -/

/-- Either both values are numbers, or neither is. -/
def SameKind (v w : Value) : Prop := v.number?.isSome = w.number?.isSome

/-- Texts without regard to case, and only then with it. -/
def compareTexts (v w : Value) : Ordering :=
  (compareText (Text.fold v.asText) (Text.fold w.asText)).then (compareText v.asText w.asText)

instance : Std.TransCmp compareTexts := by
  have h : compareTexts = compareLex (compareOn fun v => Text.fold v.asText) (compareOn asText) := by
    funext v w
    rw [compareTexts, compareText_eq, compareText_eq]
    rfl
  rw [h]
  infer_instance

theorem sortCompare_numbers {v w : Value} {m n : Number} (hv : v.number? = some m) (hw : w.number? = some n) :
    v.sortCompare w = m.compare n := by
  simp only [sortCompare, compare, hv, hw, Option.isSome_some, Bool.and_self, if_true]
  cases m.compare n <;> rfl

theorem sortCompare_texts {v w : Value} (h : v.number? = none ∨ w.number? = none) :
    v.sortCompare w = v.compareTexts w := by
  have hcompare : v.compare w = compareText (Text.fold v.asText) (Text.fold w.asText) := by
    unfold compare
    rcases h with h | h
    · rw [h]
    · rw [h]
      cases v.number? <;> rfl
  have hboth : (v.number?.isSome && w.number?.isSome) = false := by
    rcases h with h | h <;> simp [h]
  simp only [sortCompare, hcompare, hboth, compareTexts]
  cases compareText (Text.fold v.asText) (Text.fold w.asText) <;> rfl

theorem sortCompare_swap (v w : Value) : v.sortCompare w = (w.sortCompare v).swap := by
  cases hv : v.number? with
  | none =>
    rw [sortCompare_texts (.inl hv), sortCompare_texts (.inr hv)]
    exact Std.OrientedCmp.eq_swap
  | some m =>
    cases hw : w.number? with
    | none =>
      rw [sortCompare_texts (.inr hw), sortCompare_texts (.inl hw)]
      exact Std.OrientedCmp.eq_swap
    | some n =>
      rw [sortCompare_numbers hv hw, sortCompare_numbers hw hv]
      exact Std.OrientedCmp.eq_swap

theorem sortCompare_isLE_trans {v w x : Value} (hvw : SameKind v w) (hwx : SameKind w x)
    (h : (v.sortCompare w).isLE = true) (h' : (w.sortCompare x).isLE = true) : (v.sortCompare x).isLE = true := by
  cases hw : w.number? with
  | none =>
    have hv : v.number? = none := by simpa [SameKind, hw] using hvw
    rw [sortCompare_texts (.inl hv)] at h ⊢
    rw [sortCompare_texts (.inl hw)] at h'
    exact Std.TransCmp.isLE_trans h h'
  | some n =>
    obtain ⟨m, hv⟩ := Option.isSome_iff_exists.mp (hvw.trans (by simp [hw]))
    obtain ⟨k, hx⟩ := Option.isSome_iff_exists.mp (hwx.symm.trans (by simp [hw]))
    rw [sortCompare_numbers hv hw] at h
    rw [sortCompare_numbers hw hx] at h'
    rw [sortCompare_numbers hv hx]
    exact Std.TransCmp.isLE_trans h h'

end Value

end JsonTables
