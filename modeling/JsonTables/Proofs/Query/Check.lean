/-
  JsonTables.Proofs.Query.Check — what the check of a plan says of the expressions in it.

  The check visits every call of every expression that a later stage evaluates: those of the select list with
  the partitions and orders of its windows, of the conditions, of `GROUP BY` and of `ORDER BY`. The columns that
  tables are joined on hold no call.

  Proved:
  - `checked_of_check`: in a plan that passes, every call at any depth has a number of arguments that its
    function takes.
-/

import JsonTables.Proofs.Aggregates
import JsonTables.Query.Execute

namespace JsonTables

/-- The expressions of a plan, in the order of the check. -/
def Plan.exprs (plan : Plan) : List Expr :=
  plan.select.flatMap (·.content.exprs) ++ plan.where_.toList.flatMap Predicate.exprs ++
    plan.having.toList.flatMap Predicate.exprs ++ plan.groupBy ++ plan.orderBy.map (·.expr)

namespace Plan

variable {plan : Plan} {e : Expr}

theorem mem_exprs_of_select (h : e ∈ plan.select.flatMap (·.content.exprs)) : e ∈ plan.exprs := by
  simp only [exprs, List.mem_append]
  exact .inl (.inl (.inl (.inl h)))

theorem mem_exprs_of_where (h : e ∈ plan.where_.toList.flatMap Predicate.exprs) : e ∈ plan.exprs := by
  simp only [exprs, List.mem_append]
  exact .inl (.inl (.inl (.inr h)))

theorem mem_exprs_of_having (h : e ∈ plan.having.toList.flatMap Predicate.exprs) : e ∈ plan.exprs := by
  simp only [exprs, List.mem_append]
  exact .inl (.inl (.inr h))

theorem mem_exprs_of_groupBy (h : e ∈ plan.groupBy) : e ∈ plan.exprs := by
  simp only [exprs, List.mem_append]
  exact .inl (.inr h)

theorem mem_exprs_of_orderBy {o : OrderItem} (h : o ∈ plan.orderBy) : o.expr ∈ plan.exprs :=
  List.mem_append_right _ (List.mem_map_of_mem h)

/-- What a plan aggregates lies in its expressions. -/
theorem exists_expr_of_call {registry : Registry} {c : Expr}
    (hc : c ∈ outermostCalls registry plan.select plan.having plan.orderBy) :
    ∃ e ∈ plan.exprs, Expr.Outermost registry c e := by
  rcases mem_outermostCalls.mp hc with ⟨item, hitem, e, he, hin⟩ | ⟨p, hp, e, he, hin⟩ | ⟨o, ho, hin⟩
  · exact ⟨e, mem_exprs_of_select (List.mem_flatMap.mpr ⟨item, hitem, he⟩), hin⟩
  · exact ⟨e, mem_exprs_of_having (List.mem_flatMap.mpr ⟨p, Option.mem_toList.mpr hp, he⟩), hin⟩
  · exact ⟨o.expr, mem_exprs_of_orderBy ho, hin⟩

end Plan

/-! ## Checked expressions -/

/-- Nothing is wrong at any call in the expression. -/
def Expr.Checked (registry : Registry) (e : Expr) : Prop := ∀ point ∈ e.checkPoints, point.fault? registry = none

theorem Expr.mem_checkPointsAll {point : CheckPoint} {es : List Expr} :
    point ∈ checkPointsAll es ↔ ∃ e ∈ es, point ∈ e.checkPoints := by
  induction es with
  | nil => simp [checkPointsAll]
  | cons e es ih => simp [checkPointsAll, ih]

section

variable {registry : Registry}

namespace Expr.Checked

theorem left {op : Operator} {l r : Expr} (h : (binary op l r).Checked registry) : l.Checked registry := by
  intro point hpoint
  exact h point (by simp [checkPoints, hpoint])

theorem right {op : Operator} {l r : Expr} (h : (binary op l r).Checked registry) : r.Checked registry := by
  intro point hpoint
  exact h point (by simp [checkPoints, hpoint])

theorem operand {e : Expr} (h : (negate e).Checked registry) : e.Checked registry := h

theorem argument {name : String} {args : List Expr} (h : (call name args).Checked registry) {a : Expr} (ha : a ∈ args) :
    a.Checked registry := by
  intro point hpoint
  exact h point (List.mem_cons_of_mem _ (mem_checkPointsAll.mpr ⟨a, ha, hpoint⟩))

/-- A registered function takes the number of arguments of a checked call. -/
theorem accepts {name : String} {count : Nat} {f : Function} (h : (CheckPoint.call name count).fault? registry = none)
    (hf : registry.lookup? name = some f) : f.arity.accepts count = true := by
  by_contra hnot
  simp [CheckPoint.fault?, hf, hnot] at h

theorem accepts_call {name : String} {args : List Expr} (h : (call name args).Checked registry) {f : Function}
    (hf : registry.lookup? name = some f) : f.arity.accepts args.length = true :=
  accepts (h _ (by simp [checkPoints])) hf

theorem accepts_callStar {name : String} (h : (callStar name).Checked registry) {f : Function}
    (hf : registry.lookup? name = some f) : f.arity.accepts 1 = true :=
  accepts (h _ (by simp [checkPoints])) hf

/-- An aggregate call in a checked expression is checked. -/
theorem outermost {c e : Expr} (hc : Expr.Outermost registry c e) (h : e.Checked registry) : c.Checked registry := by
  induction hc with
  | self _ => exact h
  | argument _ ha _ ih => exact ih (h.argument ha)
  | left _ ih => exact ih h.left
  | right _ ih => exact ih h.right
  | operand _ ih => exact ih h.operand

end Expr.Checked

theorem Predicate.checkPoints_eq (p : Predicate) : p.checkPoints = p.exprs.flatMap Expr.checkPoints := by
  induction p with
  | truth e => simp [checkPoints, exprs]
  | compare op left right => simp [checkPoints, exprs]
  | and left right ihl ihr => simp [checkPoints, exprs, ihl, ihr]
  | or left right ihl ihr => simp [checkPoints, exprs, ihl, ihr]

theorem Selected.mem_checkPoints {s : Selected} {e : Expr} (he : e ∈ s.exprs) {point : CheckPoint}
    (hpoint : point ∈ e.checkPoints) : point ∈ s.checkPoints := by
  cases s with
  | star => simp [exprs] at he
  | expr e' =>
    rw [List.mem_singleton.mp he] at hpoint
    exact hpoint
  | window w =>
    rcases List.mem_append.mp he with he | he
    · exact List.mem_cons_of_mem _ (List.mem_append_left _ (List.mem_flatMap.mpr ⟨e, he, hpoint⟩))
    · obtain ⟨o, ho, rfl⟩ := List.mem_map.mp he
      exact List.mem_cons_of_mem _ (List.mem_append_right _ (List.mem_flatMap.mpr ⟨o, ho, hpoint⟩))

theorem Plan.mem_checkPoints {plan : Plan} {e : Expr} (he : e ∈ plan.exprs) {point : CheckPoint}
    (hpoint : point ∈ e.checkPoints) : point ∈ plan.checkPoints := by
  have hcondition (condition : Option Predicate) (he : e ∈ condition.toList.flatMap Predicate.exprs) :
      point ∈ (condition.map Predicate.checkPoints).getD [] := by
    obtain ⟨p, hp, he⟩ := List.mem_flatMap.mp he
    rw [Option.mem_toList.mp hp, Option.map_some, Option.getD_some, Predicate.checkPoints_eq]
    exact List.mem_flatMap.mpr ⟨e, he, hpoint⟩
  simp only [exprs, List.mem_append] at he
  simp only [checkPoints, List.mem_append]
  rcases he with (((he | he) | he) | he) | he
  · obtain ⟨item, hitem, he⟩ := List.mem_flatMap.mp he
    exact .inl (.inl (.inl (.inl (List.mem_flatMap.mpr ⟨item, hitem, Selected.mem_checkPoints he hpoint⟩))))
  · exact .inl (.inl (.inl (.inr (hcondition _ he))))
  · exact .inl (.inl (.inr (hcondition _ he)))
  · exact .inl (.inr (List.mem_flatMap.mpr ⟨e, he, hpoint⟩))
  · obtain ⟨o, ho, rfl⟩ := List.mem_map.mp he
    exact .inr (List.mem_flatMap.mpr ⟨o, ho, hpoint⟩)

/-- The check looks into every expression of the plan. -/
theorem checked_of_check {plan : Plan} (h : plan.check registry = .ok ()) : ∀ e ∈ plan.exprs, e.Checked registry := by
  intro e he point hpoint
  unfold Plan.check at h
  cases hfault : plan.checkPoints.findSome? (CheckPoint.fault? registry) with
  | some fault => rw [hfault] at h; cases h
  | none => exact List.findSome?_eq_none_iff.mp hfault point (Plan.mem_checkPoints he hpoint)

/-- The tables of a plan are found only if it passes. -/
theorem Plan.check_of_tables {plan : Plan} {dataset : Dataset} {tables : SourceTables}
    (h : plan.tables registry dataset = .ok tables) : plan.check registry = .ok () := by
  unfold Plan.tables at h
  cases hcheck : plan.check registry with
  | error fault => rw [hcheck] at h; cases h
  | ok _ => rfl

end

end JsonTables
