/-
  JsonTables.Proofs.Query.Faults — what is behind a fault that ends a query.

  A query that is refused says why. One that is carried out can still end in a fault, of arithmetic or of digits,
  which nothing between the operation and the program's loop catches. The fault comes from an operation that the plan
  itself contains, on values that its run can meet: cells of its tables, its literals, names that stand for
  themselves, constants, null, ranks, and what its own operations make of all these. That is shown stage by stage, by
  the rules for computations that end in a fault with an explanation.

  Proved:
  - `Expr.eval_ends`: an expression of the plan gives such a value, or its fault is explained.
  - `workingRows_ends`, `projectedRows_ends`: so do the stages of a plan.
  - `evaluate_ends`: the whole plan ends in a result or in a fault that one of its operations explains.
-/

import JsonTables.Proofs.Buckets
import JsonTables.Proofs.Ends
import JsonTables.Proofs.Function.Faults
import JsonTables.Proofs.Join
import JsonTables.Proofs.Query.Check
import JsonTables.Proofs.Query.Order
import JsonTables.Proofs.Query.Projection

namespace JsonTables

open Evaluation

/-! ## Operations of a plan and the values they meet -/

/-- `e` stands in an expression, at any depth. -/
inductive Expr.Within (e : Expr) : Expr → Prop
  | self : Within e e
  | argument {name : String} {args : List Expr} {a : Expr} : a ∈ args → Within e a → Within e (.call name args)
  | left {op : Operator} {l r : Expr} : Within e l → Within e (.binary op l r)
  | right {op : Operator} {l r : Expr} : Within e r → Within e (.binary op l r)
  | operand {inner : Expr} : Within e inner → Within e (.negate inner)

theorem Expr.Within.trans {e mid whole : Expr} (h : e.Within mid) (h' : mid.Within whole) : e.Within whole := by
  induction h' with
  | self => exact h
  | argument ha _ ih => exact .argument ha ih
  | left _ ih => exact .left ih
  | right _ ih => exact .right ih
  | operand _ ih => exact .operand ih

theorem Expr.Outermost.within {registry : Registry} {c e : Expr} (h : Expr.Outermost registry c e) : c.Within e := by
  induction h with
  | self _ => exact .self
  | argument _ ha _ ih => exact .argument ha ih
  | left _ ih => exact .left ih
  | right _ ih => exact .right ih
  | operand _ ih => exact .operand ih

namespace Plan

/-- The expression stands in the plan, at any depth. -/
def Holds (plan : Plan) (e : Expr) : Prop := ∃ whole ∈ plan.exprs, e.Within whole

theorem Holds.within {plan : Plan} {e whole : Expr} (hwhole : plan.Holds whole) (h : e.Within whole) : plan.Holds e := by
  obtain ⟨top, htop, hin⟩ := hwhole
  exact ⟨top, htop, h.trans hin⟩

theorem holds_of_mem {plan : Plan} {e : Expr} (h : e ∈ plan.exprs) : plan.Holds e := ⟨e, h, .self⟩

variable (registry : Registry) (plan : Plan) (tables : SourceTables)

/-- A value that a run of the plan can meet: one that it finds, or one that its operations make of others. -/
inductive Meets : Value → Prop
  | null : Meets .null
  | cell {rows : List Row} {row : Row} {e : String × Value} :
      rows = tables.base ∨ rows ∈ tables.joined.map Prod.snd → row ∈ rows → e ∈ row.entries → Meets e.2
  | literal {l : Literal} : plan.Holds (.literal l) → Meets l.toValue
  | name {name : String} : plan.Holds (.column name) → Meets (.text name)
  | constant {name : String} {v : Value} : plan.Holds (.column name) → registry.constant? name = some v → Meets v
  | rank (n : Nat) : windowItems plan.select ≠ [] → Meets (Value.ofInt n)
  | operator {op : Operator} {left right : Expr} {a b v : Value} : plan.Holds (.binary op left right) →
      Meets a → Meets b → op.onValues a b = .ok v → Meets v
  | negated {operand : Expr} {v w : Value} : plan.Holds (.negate operand) → Meets v → v.negated = .ok w → Meets w
  | call {name : String} {args : List Expr} {f : Function} {values : List Value} {v : Value} :
      plan.Holds (.call name args) → registry.lookup? name = some f → (∀ value ∈ values, Meets value) →
      f.run values = .ok v → Meets v
  | callStar {name : String} {f : Function} {n : Nat} {v : Value} : plan.Holds (.callStar name) →
      registry.lookup? name = some f → n = 1 ∨ f.aggregate = true →
      f.run (List.replicate n (Value.ofInt 1)) = .ok v → Meets v

/-- A fault of an operation of the plan on values that its run can meet. -/
inductive Explains : Fault → Prop
  | operator {op : Operator} {left right : Expr} {a b : Value} {fault : Fault} : plan.Holds (.binary op left right) →
      plan.Meets registry tables a → plan.Meets registry tables b → op.onValues a b = .error fault → Explains fault
  | negated {operand : Expr} {v : Value} {fault : Fault} : plan.Holds (.negate operand) → plan.Meets registry tables v →
      v.negated = .error fault → Explains fault
  | call {name : String} {args : List Expr} {f : Function} {values : List Value} {fault : Fault} :
      plan.Holds (.call name args) → registry.lookup? name = some f →
      (∀ value ∈ values, plan.Meets registry tables value) → f.run values = .error fault → Explains fault
  | callStar {name : String} {f : Function} {n : Nat} {fault : Fault} : plan.Holds (.callStar name) →
      registry.lookup? name = some f → n = 1 ∨ f.aggregate = true →
      f.run (List.replicate n (Value.ofInt 1)) = .error fault → Explains fault

end Plan

/-! ## Rows of such values -/

/-- All values of the row have the property. -/
def Row.All (P : Value → Prop) (r : Row) : Prop := ∀ e ∈ r.entries, P e.2

section Rows

variable {P : Value → Prop}

theorem Row.all_empty : Row.empty.All P := fun _ h => nomatch h

theorem Row.All.get? {r : Row} (h : r.All P) {name : String} {v : Value} (hv : r.get? name = some v) : P v :=
  Entries.forall_get? h hv

theorem Row.All.insert {r : Row} (h : r.All P) {name : String} {v : Value} (hv : P v) : (r.insert name v).All P :=
  Entries.forall_insert h hv

theorem Row.All.setAll {r : Row} (h : r.All P) {es : List (String × Value)} (hes : ∀ e ∈ es, P e.2) : (r.setAll es).All P :=
  Entries.forall_overlay h hes

theorem Row.All.overlay {r s : Row} (h : r.All P) (hs : s.All P) : (r.overlay s).All P := Entries.forall_overlay h hs

theorem Row.All.fill {r : Row} (h : r.All P) (hnull : P .null) (names : List String) : (r.fill names).All P := by
  unfold Row.fill
  induction names generalizing r with
  | nil => exact h
  | cons name names ih =>
    rw [List.foldl_cons]
    apply ih
    split
    · exact h
    · exact h.insert hnull

theorem Row.All.column? {r : Row} (h : r.All P) {name : String} {v : Value} (hv : r.column? name = some v) : P v := by
  unfold Row.column? at hv
  dsimp only at hv
  split at hv
  · rename_i w hw
    cases hv
    exact h.get? hw
  · split at hv
    · rename_i w hw
      cases hv
      split at hw
      · exact h.get? hw
      · cases hw
    · obtain ⟨e, he, rfl⟩ := Option.map_eq_some_iff.mp hv
      exact h e (List.mem_of_find?_eq_some he)

theorem all_qualify {rows : List Row} (h : ∀ r ∈ rows, r.All P) (name : String) :
    ∀ r ∈ Dataset.qualify name rows, r.All P := by
  refine List.forall_mem_map.mpr fun r hr => (h r hr).setAll ?_
  exact List.forall_mem_map.mpr fun e he => h r hr e he

theorem all_joinRows {scope : Scope} {kind : JoinKind} {rightName : Option String} {leftKey rightKey : String}
    {left right : List Row} (hnull : P .null) (hleft : ∀ r ∈ left, r.All P) (hright : ∀ r ∈ right, r.All P) :
    ∀ r ∈ joinRows scope kind rightName leftKey rightKey left right, r.All P := by
  intro r hr
  rw [joinRows_eq_joinBy] at hr
  rcases List.mem_append.mp hr with hr | hr
  · obtain ⟨l, hl, hr⟩ := List.mem_flatMap.mp hr
    unfold joinLeft at hr
    split at hr
    · split at hr
      · rw [List.mem_singleton.mp hr]
        exact (hleft l hl).fill hnull _
      · cases hr
    · obtain ⟨partner, hpartner, rfl⟩ := List.mem_map.mp hr
      exact (hleft l hl).overlay (hright partner (List.mem_filter.mp hpartner).1)
  · split at hr
    · obtain ⟨single, hsingle, rfl⟩ := List.mem_map.mp hr
      exact (Row.all_empty.fill hnull _).overlay (hright single (List.mem_filter.mp hsingle).1)
    · cases hr

end Rows

/-! ## Expressions -/

section Expressions

variable {registry : Registry} {plan : Plan} {tables : SourceTables} {row : Row}

theorem meets_resolve? {name : String} (hname : plan.Holds (.column name)) (hrow : row.All (plan.Meets registry tables))
    {v : Value} (hv : Scope.resolve? ⟨registry, []⟩ row name = some v) : plan.Meets registry tables v := by
  unfold Scope.resolve? at hv
  dsimp only [Entries.get?, List.find?_nil, Option.map_none] at hv
  split at hv
  · rename_i w hw
    cases hv
    exact hrow.column? hw
  · exact .constant hname hv

theorem meets_column {name : String} (hname : plan.Holds (.column name)) (hrow : row.All (plan.Meets registry tables))
    {default : Value} (hdefault : plan.Meets registry tables default) :
    plan.Meets registry tables ((Scope.resolve? ⟨registry, []⟩ row name).getD default) := by
  cases hv : Scope.resolve? ⟨registry, []⟩ row name with
  | none => exact hdefault
  | some v => exact meets_resolve? hname hrow hv

/-- The value that the row holds for an aggregate call. -/
theorem meets_aggregate? {call : Expr} (hrow : row.All (plan.Meets registry tables)) {v : Value}
    (hv : row.aggregate? registry call = some v) : plan.Meets registry tables v := by
  unfold Row.aggregate? at hv
  split at hv
  · exact hrow.get? hv
  · cases hv

mutual

/-- On a row of values that a run can meet an expression gives another one, or its fault is explained. -/
theorem Expr.eval_ends (hrow : row.All (plan.Meets registry tables)) : ∀ e : Expr, plan.Holds e →
    Ends (plan.Explains registry tables) (plan.Meets registry tables) (e.eval ⟨registry, []⟩ row)
  | .literal l, h => .pure (.literal h)
  | .column name, h => .pure (meets_column h hrow (.name h))
  | .call name args, h => by
    unfold Expr.eval
    split
    · rename_i v hv
      exact .pure (meets_aggregate? hrow hv)
    · split
      · exact (ends_reportUnknown name).bind fun _ _ => .pure .null
      · rename_i f hf
        exact (Expr.evalAll_ends hrow args fun a ha => h.within (.argument ha .self)).bind fun values hvalues =>
          ends_lift (fun _ => .call h hf hvalues) fun _ => .call h hf hvalues
  | .callStar name, h => by
    unfold Expr.eval
    split
    · rename_i v hv
      exact .pure (meets_aggregate? hrow hv)
    · split
      · exact (ends_reportUnknown name).bind fun _ _ => .pure .null
      · rename_i f hf
        exact ends_lift (fun _ => .callStar (n := 1) h hf (.inl rfl)) fun _ => .callStar (n := 1) h hf (.inl rfl)
  | .binary op left right, h => by
    unfold Expr.eval
    exact (Expr.eval_ends hrow left (h.within (.left .self))).bind fun a ha =>
      (Expr.eval_ends hrow right (h.within (.right .self))).bind fun b hb =>
        ends_lift (fun _ => .operator h ha hb) fun _ => .operator h ha hb
  | .negate operand, h => by
    unfold Expr.eval
    exact (Expr.eval_ends hrow operand (h.within (.operand .self))).bind fun v hv =>
      ends_lift (fun _ => .negated h hv) fun _ => .negated h hv

theorem Expr.evalAll_ends (hrow : row.All (plan.Meets registry tables)) : ∀ es : List Expr, (∀ e ∈ es, plan.Holds e) →
    Ends (plan.Explains registry tables) (fun values => ∀ v ∈ values, plan.Meets registry tables v)
      (Expr.evalAll ⟨registry, []⟩ row es)
  | [], _ => .pure fun _ h => nomatch h
  | e :: rest, h => by
    obtain ⟨he, hrest⟩ := List.forall_mem_cons.mp h
    unfold Expr.evalAll
    exact (Expr.eval_ends hrow e he).bind fun v hv => (Expr.evalAll_ends hrow rest hrest).bind fun vs hvs =>
      .pure (List.forall_mem_cons.mpr ⟨hv, hvs⟩)

end

end Expressions

/-! ## The stages of a plan -/

section Stages

variable {registry : Registry} {plan : Plan} {tables : SourceTables} {row : Row} {rows : List Row}

theorem Predicate.test_ends {p : Predicate} (hrow : row.All (plan.Meets registry tables))
    (hp : ∀ e ∈ p.exprs, plan.Holds e) :
    Ends (plan.Explains registry tables) (fun _ => True) (p.test ⟨registry, []⟩ row) := by
  induction p with
  | truth e =>
    unfold Predicate.test
    exact (Expr.eval_ends hrow e (hp e (by simp [exprs]))).bind fun _ _ => .pure trivial
  | compare op left right =>
    unfold Predicate.test
    exact (Expr.eval_ends hrow left (hp left (by simp [exprs]))).bind fun _ _ =>
      (Expr.eval_ends hrow right (hp right (by simp [exprs]))).bind fun _ _ => .pure trivial
  | and left right ihl ihr =>
    unfold Predicate.test
    refine (ihl fun e he => hp e (by simp [exprs, he])).bind fun passes _ => ?_
    split
    · exact ihr fun e he => hp e (by simp [exprs, he])
    · exact .pure trivial
  | or left right ihl ihr =>
    unfold Predicate.test
    refine (ihl fun e he => hp e (by simp [exprs, he])).bind fun passes _ => ?_
    split
    · exact .pure trivial
    · exact ihr fun e he => hp e (by simp [exprs, he])

/-- The rows hold values that a run can meet. -/
def Plan.MeetsRows (registry : Registry) (plan : Plan) (tables : SourceTables) (rows : List Row) : Prop :=
  ∀ r ∈ rows, r.All (plan.Meets registry tables)

theorem filterRows_ends {condition : Option Predicate} (hp : ∀ e ∈ condition.toList.flatMap Predicate.exprs, plan.Holds e)
    (clause : Clause) (hrows : plan.MeetsRows registry tables rows) :
    Ends (plan.Explains registry tables) (plan.MeetsRows registry tables)
      (Plan.filterRows ⟨registry, []⟩ clause condition rows) := by
  cases condition with
  | none => exact .pure hrows
  | some p =>
    have htest : ∀ r ∈ rows, Ends (plan.Explains registry tables) (fun _ => True) (p.test ⟨registry, []⟩ r) :=
      fun r hr => Predicate.test_ends (hrows r hr) fun e he => hp e (by simpa using he)
    exact (Ends.filterM hrows htest).bind fun kept hkept => (ends_note _).bind fun _ _ => .pure hkept

/-! ### Groups -/

theorem argumentValue_ends (hrow : row.All (plan.Meets registry tables)) {e : Expr} (he : plan.Holds e) :
    Ends (plan.Explains registry tables) (plan.Meets registry tables) (argumentValue ⟨registry, []⟩ row e) := by
  cases e with
  | column name => exact .pure (meets_column he hrow .null)
  | _ => exact Expr.eval_ends hrow _ he

theorem aggregateValue_ends (hrows : plan.MeetsRows registry tables rows) {c : Expr} (hc : plan.Holds c)
    (hcall : registry.isAggregateCall c = true) :
    Ends (plan.Explains registry tables) (plan.Meets registry tables) (aggregateValue ⟨registry, []⟩ rows c) := by
  cases c with
  | callStar name =>
    cases hf : registry.lookup? name with
    | none => simp [Registry.isAggregateCall, Registry.isAggregate, hf] at hcall
    | some f =>
      have haggregate : f.aggregate = true := by simpa [Registry.isAggregateCall, Registry.isAggregate, hf] using hcall
      simp only [aggregateValue, hf, List.map_const']
      exact ends_lift (fun _ => .callStar hc hf (.inr haggregate)) fun _ => .callStar hc hf (.inr haggregate)
  | call name args =>
    rcases args with _ | ⟨argument, rest⟩
    · exact .pure .null
    · cases hf : registry.lookup? name with
      | none =>
        simp only [aggregateValue, hf]
        exact .pure .null
      | some f =>
        simp only [aggregateValue, hf]
        have hargument : plan.Holds argument := hc.within (.argument List.mem_cons_self .self)
        exact (Ends.mapM fun r hr => argumentValue_ends (hrows r hr) hargument).bind fun values hvalues =>
          ends_lift (fun _ => .call hc hf hvalues) fun _ => .call hc hf hvalues
  | _ => exact .pure .null

theorem rowKeys_ends (hrow : row.All (plan.Meets registry tables)) {exprs : List Expr} (h : ∀ e ∈ exprs, plan.Holds e) :
    Ends (plan.Explains registry tables) (fun _ => True) (rowKeys ⟨registry, []⟩ exprs row) :=
  (Ends.mapM (Q := fun _ => True) fun e he => (Expr.eval_ends hrow e (h e he)).bind fun _ _ => .pure trivial).mono
    fun _ _ => trivial

theorem groupsOf_ends (hgroup : ∀ e ∈ plan.groupBy, plan.Holds e) (hrows : plan.MeetsRows registry tables rows) :
    Ends (plan.Explains registry tables) (fun groups => ∀ bucket ∈ groups, plan.MeetsRows registry tables bucket)
      (groupsOf ⟨registry, []⟩ plan.groupBy rows) := by
  unfold groupsOf
  split
  · exact .pure (List.forall_mem_singleton.mpr hrows)
  · refine (Ends.mapM (Q := fun keyed => keyed.2.All (plan.Meets registry tables)) fun r hr => ?_).bind
      fun keyed hkeyed => .pure fun bucket hbucket r hr => ?_
    · exact (rowKeys_ends (hrows r hr) hgroup).bind fun _ _ => .pure (hrows r hr)
    · obtain ⟨keys, hmem⟩ := mem_bucketsBy hbucket hr
      exact hkeyed _ hmem

theorem groupRow_ends {calls : Entries Expr}
    (hcalls : ∀ e ∈ calls, plan.Holds e.2 ∧ registry.isAggregateCall e.2 = true)
    (hrows : plan.MeetsRows registry tables rows) :
    Ends (plan.Explains registry tables) (Row.All (plan.Meets registry tables)) (groupRow ⟨registry, []⟩ calls rows) := by
  refine Ends.foldlM (fun e he r hr => ?_) ?_
  · exact (aggregateValue_ends hrows (hcalls e he).1 (hcalls e he).2).bind fun v hv => .pure (hr.insert hv)
  · cases rows with
    | nil => exact Row.all_empty
    | cons r rows => exact hrows r List.mem_cons_self

theorem groupRows_ends (hrows : plan.MeetsRows registry tables rows) :
    Ends (plan.Explains registry tables) (plan.MeetsRows registry tables)
      (groupRows ⟨registry, []⟩ plan.groupBy plan.select plan.having plan.orderBy rows) := by
  have hcalls : ∀ e ∈ collectAggregates registry plan.select plan.having plan.orderBy,
      plan.Holds e.2 ∧ registry.isAggregateCall e.2 = true := by
    rw [collectAggregates_eq]
    refine List.forall_mem_map.mpr fun c hc => ?_
    have hc := mem_of_mem_distinctCalls hc
    obtain ⟨e, he, hin⟩ := Plan.exists_expr_of_call hc
    exact ⟨⟨e, he, hin.within⟩, isAggregateCall_of_mem hc⟩
  unfold groupRows
  refine (groupsOf_ends (fun e he => Plan.holds_of_mem (Plan.mem_exprs_of_groupBy he)) hrows).bind fun groups hgroups => ?_
  exact (Ends.mapM fun bucket hbucket => groupRow_ends hcalls (hgroups bucket hbucket)).bind fun result hresult =>
    (ends_note _).bind fun _ _ => .pure hresult

/-! ### Ranks -/

theorem mem_placed {i : Nat} {r : Row} (h : (i, r) ∈ placed rows) : r ∈ rows := (List.of_mem_zip h).2

theorem Window.ranks_ends {w : Window} (hw : ∀ e ∈ (Selected.window w).exprs, plan.Holds e)
    (hrows : plan.MeetsRows registry tables rows) :
    Ends (plan.Explains registry tables) (fun _ => True) (w.ranks ⟨registry, []⟩ rows) := by
  have hpartition : ∀ e ∈ w.partitionBy, plan.Holds e := fun e he => hw e (List.mem_append_left _ he)
  have horder : ∀ o ∈ w.orderBy, plan.Holds o.expr :=
    fun o ho => hw o.expr (List.mem_append_right _ (List.mem_map_of_mem ho))
  unfold Window.ranks
  refine (Ends.mapM (Q := fun keyed => keyed.2.2.All (plan.Meets registry tables)) fun placedRow hplaced => ?_).bind
    fun keyed hkeyed => ?_
  · obtain ⟨i, r⟩ := placedRow
    exact (rowKeys_ends (hrows r (mem_placed hplaced)) hpartition).bind fun _ _ => .pure (hrows r (mem_placed hplaced))
  · refine (Ends.mapM (Q := fun _ => True) fun members hmembers => ?_).bind fun _ _ => .pure trivial
    refine (Ends.mapM (Q := fun _ => True) fun member hmember => ?_).bind fun _ _ => .pure trivial
    obtain ⟨i, r⟩ := member
    obtain ⟨keys, hmem⟩ := mem_bucketsBy hmembers hmember
    refine (Ends.mapM (Q := fun _ => True) fun o ho => ?_).bind fun _ _ => .pure trivial
    exact (Expr.eval_ends (hkeyed _ hmem) o.expr (horder o ho)).mono fun _ _ => trivial

theorem applyWindows_ends (hrows : plan.MeetsRows registry tables rows) :
    Ends (plan.Explains registry tables) (plan.MeetsRows registry tables)
      (applyWindows ⟨registry, []⟩ plan.select rows) := by
  unfold applyWindows
  dsimp only
  split
  · exact .pure hrows
  · rename_i hwindows
    refine (Ends.mapM (Q := fun _ => True) fun x hx => ?_).bind fun computed _ => ?_
    · obtain ⟨name, w⟩ := x
      obtain ⟨item, hitem, hw⟩ := exists_item_of_window hx
      have hexprs : ∀ e ∈ (Selected.window w).exprs, plan.Holds e := fun e he =>
        Plan.holds_of_mem (Plan.mem_exprs_of_select (List.mem_flatMap.mpr ⟨item, hitem, hw ▸ he⟩))
      exact (Window.ranks_ends hexprs hrows).bind fun _ _ => .pure trivial
    · refine (ends_note _).bind fun _ _ => .pure (List.forall_mem_map.mpr fun placedRow hplaced => ?_)
      refine (hrows _ (mem_placed hplaced)).setAll (List.forall_mem_map.mpr fun ranked _ => ?_)
      exact .rank _ (by simpa using hwindows)

/-! ### Projection and order -/

theorem projectRow_ends {working : List Row} (hrow : row.All (plan.Meets registry tables)) :
    Ends (plan.Explains registry tables) (fun _ => True) (projectRow ⟨registry, []⟩ (plan.columns registry working) row) := by
  refine (Ends.mapM (Q := fun _ => True) fun c hc => ?_).bind fun _ _ => .pure trivial
  obtain ⟨name, source⟩ := c
  cases source with
  | starred key => exact .pure trivial
  | rank name => exact .pure trivial
  | column name => exact .pure trivial
  | expr e =>
    obtain ⟨item, hitem, hcontent⟩ := exists_item_of_expr hc
    have he : plan.Holds e := Plan.holds_of_mem (Plan.mem_exprs_of_select
      (List.mem_flatMap.mpr ⟨item, hitem, hcontent ▸ List.mem_singleton_self e⟩))
    exact (Expr.eval_ends hrow e he).bind fun _ _ => .pure trivial

theorem orderRows_ends {projected : List Projected}
    (h : ∀ p ∈ projected, p.source.All (plan.Meets registry tables)) :
    Ends (plan.Explains registry tables) (fun _ => True) (orderRows ⟨registry, []⟩ plan.orderBy projected) := by
  refine (Ends.mapM (Q := fun _ => True) fun p hp => ?_).bind fun _ _ => .pure trivial
  refine (Ends.mapM (Q := fun _ => True) fun o ho => ?_).bind fun _ _ => .pure trivial
  unfold sortValue
  split
  · exact .pure trivial
  · exact (Expr.eval_ends (h p hp) o.expr (Plan.holds_of_mem (Plan.mem_exprs_of_orderBy ho))).mono fun _ _ => trivial

theorem projectedRows_ends {working : List Row} (hrows : plan.MeetsRows registry tables rows) :
    Ends (plan.Explains registry tables) (fun _ => True)
      (plan.projectedRows ⟨registry, []⟩ (plan.columns registry working) rows) := by
  unfold Plan.projectedRows
  refine (Ends.mapM (Q := fun p : Projected => p.source.All (plan.Meets registry tables)) fun r hr => ?_).bind
    fun projected hprojected => ?_
  · exact (projectRow_ends (hrows r hr)).bind fun _ _ => .pure (hrows r hr)
  · have hordered : ∀ kept : List Projected, (∀ p ∈ kept, p.source.All (plan.Meets registry tables)) →
        Ends (plan.Explains registry tables) (fun _ => True)
          (if plan.orderBy.isEmpty then pure kept else orderRows ⟨registry, []⟩ plan.orderBy kept) := by
      intro kept hkept
      split
      · exact .pure trivial
      · exact orderRows_ends hkept
    dsimp only
    split
    · exact (ends_note _).bind fun _ _ => hordered _ fun p hp => hprojected p (mem_distinctFrom hp)
    · exact hordered _ hprojected

/-! ### The whole plan -/

theorem joinAll_ends {joins : List (Join × List Row)} (hrows : plan.MeetsRows registry tables rows)
    (hjoins : ∀ table ∈ joins.map Prod.snd, plan.MeetsRows registry tables table) :
    Ends (plan.Explains registry tables) (plan.MeetsRows registry tables) (joinAll ⟨registry, []⟩ rows joins) := by
  induction joins generalizing rows with
  | nil => exact .pure hrows
  | cons j joins ih =>
    obtain ⟨join, table⟩ := j
    obtain ⟨htable, hrest⟩ := List.forall_mem_cons.mp hjoins
    have hright := all_qualify htable (Dataset.tableName join.table)
    unfold joinAll
    exact (ends_note _).bind fun _ _ => ih (all_joinRows .null hrows hright) hrest

theorem workingRows_ends :
    Ends (plan.Explains registry tables) (plan.MeetsRows registry tables) (plan.workingRows ⟨registry, []⟩ tables) := by
  have hbase : plan.MeetsRows registry tables tables.base := fun r hr e he => .cell (.inl rfl) hr he
  have hjoined : ∀ table ∈ tables.joined.map Prod.snd, plan.MeetsRows registry tables table :=
    fun table htable r hr e he => .cell (.inr htable) hr he
  unfold Plan.workingRows
  refine (ends_note _).bind fun _ _ => (joinAll_ends (all_qualify hbase _) hjoined).bind fun joined hrows => ?_
  refine (filterRows_ends (fun e he => Plan.holds_of_mem (Plan.mem_exprs_of_where he)) _ hrows).bind fun kept hkept => ?_
  have hranked : ∀ groups, plan.MeetsRows registry tables groups →
      Ends (plan.Explains registry tables) (plan.MeetsRows registry tables) (do
        let left ← Plan.filterRows ⟨registry, []⟩ .having plan.having groups
        applyWindows ⟨registry, []⟩ plan.select left) := fun groups hgroups =>
    (filterRows_ends (fun e he => Plan.holds_of_mem (Plan.mem_exprs_of_having he)) _ hgroups).bind
      fun _ hleft => applyWindows_ends hleft
  dsimp only
  split
  · exact (groupRows_ends hkept).bind hranked
  · exact hranked kept hkept

/-- A plan ends in a result, or in a fault that one of its operations explains. -/
theorem evaluate_ends : Ends (plan.Explains registry tables) (fun _ => True) (plan.evaluate registry tables) := by
  unfold Plan.evaluate
  refine workingRows_ends.bind fun rows hrows => (projectedRows_ends hrows).bind fun projected _ => ?_
  exact Ends.bind (P := fun _ => True) (fun _ => trivial) fun journal _ => (ends_note _).bind fun _ _ => .pure trivial

end Stages

end JsonTables
