/-
  JsonTables.Proofs.Query.Refusals — which plans are refused on a dataset, and for what.

  The check goes through a plan node by node: the select list, `WHERE`, `HAVING`, `GROUP BY` and `ORDER BY`, and each
  node before what it is put together from. A node is wrong if it is a window whose function does not rank, or a call
  of a registered function with a number of arguments that it does not take. After the check the paths are followed,
  that of the base table and then those of the joins. Whatever the rows hold, no later stage refuses anything.

  Proved:
  - `checkPoints_eq_filterMap`: the places that are checked are the windows and the calls among the nodes.
  - `check_eq_error_iff`: a plan fails its check for the first of its nodes that is wrong.
  - `tables_eq_error_iff`: the tables of a plan are not found for its check, or for the first path to no table.
  - `execute_refused_iff`: when a plan is refused, and for what.
-/

import JsonTables.Proofs.Dataset.Paths
import JsonTables.Query.Execute

namespace JsonTables

/-! ## The first at fault -/

section FirstFault

variable {α β γ : Type} {fault : α → β → Prop} {x a : α} {as : List α} {b : β}

/-- The member is the first of the list that has a fault, and this is its fault. -/
def FirstFault (fault : α → β → Prop) (as : List α) (a : α) (b : β) : Prop :=
  ∃ before after, as = before ++ a :: after ∧ (∀ x ∈ before, ∀ c, ¬ fault x c) ∧ fault a b

theorem firstFault_nil : ¬ FirstFault fault [] a b := by
  rintro ⟨before, after, h, -⟩
  simp at h

theorem firstFault_cons :
    FirstFault fault (x :: as) a b ↔ (x = a ∧ fault x b) ∨ (∀ c, ¬ fault x c) ∧ FirstFault fault as a b := by
  constructor
  · rintro ⟨before, after, hsplit, hbefore, ha⟩
    cases before with
    | nil =>
      cases hsplit
      exact .inl ⟨rfl, ha⟩
    | cons y before =>
      cases hsplit
      obtain ⟨hy, hbefore⟩ := List.forall_mem_cons.mp hbefore
      exact .inr ⟨hy, before, after, rfl, hbefore, ha⟩
  · rintro (⟨rfl, hx⟩ | ⟨hx, before, after, rfl, hbefore, ha⟩)
    · exact ⟨[], as, rfl, fun _ h => (List.not_mem_nil h).elim, hx⟩
    · exact ⟨x :: before, after, rfl, List.forall_mem_cons.mpr ⟨hx, hbefore⟩, ha⟩

theorem exists_firstFault : (∃ a b, FirstFault fault as a b) ↔ ∃ a ∈ as, ∃ b, fault a b := by
  constructor
  · rintro ⟨a, b, before, after, rfl, -, ha⟩
    exact ⟨a, List.mem_append_right _ List.mem_cons_self, b, ha⟩
  · rintro ⟨a, ha, hfault⟩
    induction as with
    | nil => cases ha
    | cons x as ih =>
      by_cases hx : ∃ c, fault x c
      · obtain ⟨c, hc⟩ := hx
        exact ⟨x, c, firstFault_cons.mpr (.inl ⟨rfl, hc⟩)⟩
      · rcases List.mem_cons.mp ha with rfl | ha
        · exact absurd hfault hx
        · obtain ⟨a', b', h⟩ := ih ha
          exact ⟨a', b', firstFault_cons.mpr (.inr ⟨not_exists.mp hx, h⟩)⟩

theorem findSome?_filterMap (g : α → Option β) (f : β → Option γ) (as : List α) :
    (as.filterMap g).findSome? f = as.findSome? fun a => (g a).bind f := by
  induction as with
  | nil => rfl
  | cons a as ih =>
    cases ha : g a with
    | none => rw [List.filterMap_cons_none ha, List.findSome?_cons, ha, ih]; rfl
    | some b => rw [List.filterMap_cons_some ha, List.findSome?_cons, List.findSome?_cons, ha, ih]; rfl

/-- Going through a list fails as its first member that fails. -/
theorem mapM_eq_error_iff {f : α → Except β γ} :
    as.mapM f = .error b ↔ ∃ a, FirstFault (fun a b => f a = .error b) as a b := by
  induction as with
  | nil => simp [firstFault_nil, List.mapM_nil, pure, Except.pure]
  | cons x as ih =>
    simp only [firstFault_cons, List.mapM_cons]
    cases hx : f x with
    | error e => simp [bind, Except.bind]
    | ok c =>
      have hrest : (Except.ok c >>= fun y => as.mapM f >>= fun ys => pure (y :: ys)) = (.error b : Except β (List γ)) ↔
          as.mapM f = .error b := by
        cases as.mapM f <;> simp [bind, Except.bind, pure, Except.pure]
      rw [hrest, ih]
      simp

end FirstFault

/-! ## The nodes of a plan -/

/-- What the check comes by in a plan. -/
inductive Node where
  | star
  | expr (e : Expr)
  | window (w : Window)
  /-- A condition that is put together from others, or from expressions. -/
  | condition (p : Predicate)

namespace Expr

mutual

/-- The nodes of an expression, each before those it is put together from. -/
def nodes : Expr → List Node
  | literal l => [.expr (literal l)]
  | column name => [.expr (column name)]
  | call name args => .expr (call name args) :: nodesAll args
  | callStar name => [.expr (callStar name)]
  | binary op left right => .expr (binary op left right) :: (left.nodes ++ right.nodes)
  | negate operand => .expr (negate operand) :: operand.nodes

def nodesAll : List Expr → List Node
  | [] => []
  | e :: rest => e.nodes ++ nodesAll rest

end

end Expr

def Predicate.nodes : Predicate → List Node
  | truth e => e.nodes
  | compare op left right => .condition (compare op left right) :: (left.nodes ++ right.nodes)
  | and left right => .condition (and left right) :: (left.nodes ++ right.nodes)
  | or left right => .condition (or left right) :: (left.nodes ++ right.nodes)

def Selected.nodes : Selected → List Node
  | star => [.star]
  | expr e => e.nodes
  | window w => .window w :: (w.partitionBy.flatMap Expr.nodes ++ w.orderBy.flatMap fun o => o.expr.nodes)

namespace Plan

/-- The nodes of a plan in the order in which the check comes by. -/
def nodes (plan : Plan) : List Node :=
  plan.select.flatMap (·.content.nodes) ++ plan.where_.toList.flatMap Predicate.nodes ++
    plan.having.toList.flatMap Predicate.nodes ++ plan.groupBy.flatMap Expr.nodes ++
    plan.orderBy.flatMap (·.expr.nodes)

/-- The paths of a plan in the order in which they are followed. -/
def paths (plan : Plan) : List String := plan.table :: plan.joins.map (·.table)

end Plan

/-- The number is less than the least or greater than the greatest. -/
def Arity.Rejects (a : Arity) (count : Nat) : Prop := count < a.least ∨ ∃ most, a.most = some most ∧ most < count

theorem Arity.accepts_eq_false_iff {a : Arity} {count : Nat} : a.accepts count = false ↔ a.Rejects count := by
  unfold accepts Rejects
  cases a.most <;> simp; omega

/-- What is wrong at a node. -/
inductive Node.Wrong (registry : Registry) : Node → Malformed → Prop
  | window {w : Window} : Text.lower w.name ∉ ["row_number", "rank", "dense_rank"] →
      Wrong registry (.window w) (.unknownWindow w.name)
  | call {name : String} {args : List Expr} {f : Function} : registry.lookup? name = some f →
      f.arity.Rejects args.length →
      Wrong registry (.expr (.call name args)) (.arity (Text.lower name) f.arity args.length)
  | callStar {name : String} {f : Function} : registry.lookup? name = some f → f.arity.Rejects 1 →
      Wrong registry (.expr (.callStar name)) (.arity (Text.lower name) f.arity 1)

/-! ## The check -/

/-- The place at a node that is checked. -/
def Node.checkPoint? : Node → Option CheckPoint
  | expr (.call name args) => some (.call name args.length)
  | expr (.callStar name) => some (.call name 1)
  | window w => some (.window w.name)
  | _ => none

mutual

theorem Expr.filterMap_nodes : (e : Expr) → e.nodes.filterMap Node.checkPoint? = e.checkPoints
  | .literal _ => rfl
  | .column _ => rfl
  | .callStar _ => rfl
  | .call name args => congrArg (CheckPoint.call name args.length :: ·) (filterMap_nodesAll args)
  | .binary op left right => by
    show (left.nodes ++ right.nodes).filterMap Node.checkPoint? = left.checkPoints ++ right.checkPoints
    rw [List.filterMap_append, left.filterMap_nodes, right.filterMap_nodes]
  | .negate operand => operand.filterMap_nodes

theorem Expr.filterMap_nodesAll : (es : List Expr) → (nodesAll es).filterMap Node.checkPoint? = checkPointsAll es
  | [] => rfl
  | e :: rest => by
    rw [checkPointsAll, nodesAll, List.filterMap_append, e.filterMap_nodes, filterMap_nodesAll rest]

end

theorem Predicate.filterMap_nodes (p : Predicate) : p.nodes.filterMap Node.checkPoint? = p.checkPoints := by
  induction p with
  | truth e => exact e.filterMap_nodes
  | compare op left right =>
    show (left.nodes ++ right.nodes).filterMap Node.checkPoint? = left.checkPoints ++ right.checkPoints
    rw [List.filterMap_append, left.filterMap_nodes, right.filterMap_nodes]
  | and left right ihl ihr =>
    show (left.nodes ++ right.nodes).filterMap Node.checkPoint? = left.checkPoints ++ right.checkPoints
    rw [List.filterMap_append, ihl, ihr]
  | or left right ihl ihr =>
    show (left.nodes ++ right.nodes).filterMap Node.checkPoint? = left.checkPoints ++ right.checkPoints
    rw [List.filterMap_append, ihl, ihr]

theorem Selected.filterMap_nodes (s : Selected) : s.nodes.filterMap Node.checkPoint? = s.checkPoints := by
  cases s with
  | star => rfl
  | expr e => exact e.filterMap_nodes
  | window w =>
    refine congrArg (CheckPoint.window w.name :: ·) ?_
    simp only [List.filterMap_append, List.filterMap_flatMap, Expr.filterMap_nodes]

namespace Plan

variable {registry : Registry} {plan : Plan} {dataset : Dataset}

/-- The places that are checked are the windows and the calls among the nodes. -/
theorem checkPoints_eq_filterMap : plan.checkPoints = plan.nodes.filterMap Node.checkPoint? := by
  have hcondition (condition : Option Predicate) : (condition.map Predicate.checkPoints).getD [] =
      (condition.toList.flatMap Predicate.nodes).filterMap Node.checkPoint? := by
    cases condition with
    | none => rfl
    | some p => simp [p.filterMap_nodes]
  simp only [checkPoints, nodes, List.filterMap_append, List.filterMap_flatMap, Selected.filterMap_nodes, hcondition,
    Expr.filterMap_nodes]

end Plan

theorem Ranking.ofName?_eq_none_iff {name : String} :
    ofName? name = none ↔ Text.lower name ∉ ["row_number", "rank", "dense_rank"] := by
  unfold ofName?
  split <;> simp_all

section

variable {registry : Registry} {m : Malformed}

theorem CheckPoint.fault?_call {name : String} {count : Nat} : (call name count).fault? registry = some m ↔
    ∃ f, registry.lookup? name = some f ∧ f.arity.Rejects count ∧ .arity (Text.lower name) f.arity count = m := by
  simp only [← Arity.accepts_eq_false_iff]
  cases hf : registry.lookup? name with
  | none => simp [fault?, hf]
  | some f => cases h : f.arity.accepts count <;> simp [fault?, hf, h]

theorem CheckPoint.fault?_window {name : String} : (window name).fault? registry = some m ↔
    Text.lower name ∉ ["row_number", "rank", "dense_rank"] ∧ .unknownWindow name = m := by
  rw [← Ranking.ofName?_eq_none_iff]
  cases hname : Ranking.ofName? name <;> simp [fault?, hname]

/-- What the check says of a node is what is wrong there. -/
theorem Node.wrong_iff {node : Node} :
    node.Wrong registry m ↔ node.checkPoint?.bind (CheckPoint.fault? registry) = some m := by
  constructor
  · intro h
    cases h with
    | window hname => exact Option.bind_eq_some_iff.mpr ⟨_, rfl, CheckPoint.fault?_window.mpr ⟨hname, rfl⟩⟩
    | call hf hrejects => exact Option.bind_eq_some_iff.mpr ⟨_, rfl, CheckPoint.fault?_call.mpr ⟨_, hf, hrejects, rfl⟩⟩
    | callStar hf hrejects =>
      exact Option.bind_eq_some_iff.mpr ⟨_, rfl, CheckPoint.fault?_call.mpr ⟨_, hf, hrejects, rfl⟩⟩
  · intro h
    obtain ⟨point, hpoint, h⟩ := Option.bind_eq_some_iff.mp h
    unfold checkPoint? at hpoint
    split at hpoint <;> cases hpoint
    · obtain ⟨f, hf, hrejects, rfl⟩ := CheckPoint.fault?_call.mp h
      exact .call hf hrejects
    · obtain ⟨f, hf, hrejects, rfl⟩ := CheckPoint.fault?_call.mp h
      exact .callStar hf hrejects
    · obtain ⟨hname, rfl⟩ := CheckPoint.fault?_window.mp h
      exact .window hname

end

/-! ## Refusals -/

namespace Plan

variable {registry : Registry} {plan : Plan} {dataset : Dataset}

/-- A plan fails its check for the first of its nodes that is wrong. -/
theorem check_eq_error_iff {m : Malformed} :
    plan.check registry = .error m ↔ ∃ node, FirstFault (Node.Wrong registry) plan.nodes node m := by
  have hfind : plan.check registry = .error m ↔
      plan.nodes.findSome? (fun node => node.checkPoint?.bind (CheckPoint.fault? registry)) = some m := by
    rw [← findSome?_filterMap, ← checkPoints_eq_filterMap]
    unfold check
    cases plan.checkPoints.findSome? (CheckPoint.fault? registry) <;> simp
  rw [hfind, List.findSome?_eq_some_iff]
  constructor
  · rintro ⟨before, node, after, hsplit, hnode, hbefore⟩
    refine ⟨node, before, after, hsplit, ?_, Node.wrong_iff.mpr hnode⟩
    intro x hx c hc
    rw [Node.wrong_iff, hbefore x hx] at hc
    cases hc
  · rintro ⟨node, before, after, hsplit, hbefore, hnode⟩
    refine ⟨before, node, after, hsplit, Node.wrong_iff.mp hnode, ?_⟩
    intro x hx
    exact Option.eq_none_iff_forall_ne_some.mpr fun c hc => hbefore x hx c (Node.wrong_iff.mpr hc)

theorem check_eq_ok_iff : plan.check registry = .ok () ↔ ∀ node ∈ plan.nodes, ∀ m, ¬ node.Wrong registry m := by
  constructor
  · intro h node hnode m hwrong
    obtain ⟨first, fault, hfirst⟩ := exists_firstFault.mpr ⟨node, hnode, m, hwrong⟩
    rw [check_eq_error_iff.mpr ⟨first, hfirst⟩] at h
    cases h
  · intro h
    cases hcheck : plan.check registry with
    | ok _ => rfl
    | error m =>
      obtain ⟨node, hfirst⟩ := check_eq_error_iff.mp hcheck
      obtain ⟨node, hnode, m, hwrong⟩ := exists_firstFault.mp ⟨node, m, hfirst⟩
      exact absurd hwrong (h node hnode m)

/-- The joins are gone through as their paths are followed. -/
theorem mapM_joins (joins : List Join) : (joins.mapM fun j => do let rows ← dataset.table j.table; return (j, rows)) =
    ((joins.map (·.table)).mapM dataset.table).map (joins.zip ·) := by
  induction joins with
  | nil => rfl
  | cons j joins ih =>
    rw [List.map_cons, List.mapM_cons, List.mapM_cons, ih]
    cases dataset.table j.table with
    | error e => rfl
    | ok rows => cases (joins.map (·.table)).mapM dataset.table <;> rfl

/-- The tables of a plan are not found for its check, or for the first of its paths that leads to no table. -/
theorem tables_eq_error_iff {e : QueryError} : plan.tables registry dataset = .error e ↔
    (∃ m, plan.check registry = .error m ∧ .malformed m = e) ∨
      plan.check registry = .ok () ∧ ∃ path, FirstFault (fun path e => dataset.table path = .error e) plan.paths path e := by
  rw [← mapM_eq_error_iff]
  unfold tables paths
  -- Each stage is looked at only if those before it came to something.
  rw [List.mapM_cons, mapM_joins]
  cases plan.check registry with
  | error m => simp [Except.mapError, bind, Except.bind]
  | ok _ =>
    cases dataset.table plan.table with
    | error e' => simp [Except.mapError, bind, Except.bind]
    | ok base =>
      cases (plan.joins.map (·.table)).mapM dataset.table <;>
        simp [Except.mapError, Except.map, bind, Except.bind, pure, Except.pure]

/-- The path that fails first is the first that leads to no table. -/
theorem firstFault_table_iff {paths : List String} {e : QueryError} :
    (∃ path, FirstFault (fun path e => dataset.table path = .error e) paths path e) ↔
      ∃ path cause, FirstFault dataset.LacksTable paths path cause ∧ .unknownTable path cause = e := by
  constructor
  · rintro ⟨path, before, after, hsplit, hbefore, hpath⟩
    obtain ⟨cause, hlacks, rfl⟩ := Dataset.table_eq_error_iff.mp hpath
    refine ⟨path, cause, ⟨before, after, hsplit, ?_, hlacks⟩, rfl⟩
    intro x hx c hc
    exact hbefore x hx _ (Dataset.table_eq_error_iff.mpr ⟨c, hc, rfl⟩)
  · rintro ⟨path, cause, ⟨before, after, hsplit, hbefore, hlacks⟩, rfl⟩
    refine ⟨path, before, after, hsplit, ?_, Dataset.table_eq_error_iff.mpr ⟨cause, hlacks, rfl⟩⟩
    intro x hx e he
    obtain ⟨c, hc, -⟩ := Dataset.table_eq_error_iff.mp he
    exact hbefore x hx c hc

/-- Nothing that is done with the tables of a plan refuses it. -/
theorem execute_eq_error_iff {e : QueryError} : plan.execute registry dataset = .error e ↔
    (∃ m, (∃ node, FirstFault (Node.Wrong registry) plan.nodes node m) ∧ .malformed m = e) ∨
      (∀ node ∈ plan.nodes, ∀ m, ¬ node.Wrong registry m) ∧
        ∃ path cause, FirstFault dataset.LacksTable plan.paths path cause ∧ .unknownTable path cause = e := by
  simp only [← check_eq_error_iff, ← check_eq_ok_iff, ← firstFault_table_iff, ← tables_eq_error_iff]
  unfold execute
  cases plan.tables registry dataset <;> simp [bind, Except.bind, pure, Except.pure]

/-- A plan is refused as malformed just if one of its nodes is wrong, and then for what is wrong at the first such node.
Otherwise it is refused for the first of its paths that leads to no table, if there is one. Otherwise it is carried
out. What the rows hold does not count. -/
theorem execute_refused_iff (registry : Registry) (plan : Plan) (dataset : Dataset) :
    ((∃ m, plan.execute registry dataset = .error (.malformed m)) ↔
      ∃ node ∈ plan.nodes, ∃ m, node.Wrong registry m) ∧
    (∀ m, plan.execute registry dataset = .error (.malformed m) ↔
      ∃ node, FirstFault (Node.Wrong registry) plan.nodes node m) ∧
    (∀ path cause, plan.execute registry dataset = .error (.unknownTable path cause) ↔
      (∀ node ∈ plan.nodes, ∀ m, ¬ node.Wrong registry m) ∧ FirstFault dataset.LacksTable plan.paths path cause) ∧
    ((∃ outcome, plan.execute registry dataset = .ok outcome) ↔
      (∀ node ∈ plan.nodes, ∀ m, ¬ node.Wrong registry m) ∧ ∀ path ∈ plan.paths, dataset.HasTable path) := by
  have hmalformed (m : Malformed) : plan.execute registry dataset = .error (.malformed m) ↔
      ∃ node, FirstFault (Node.Wrong registry) plan.nodes node m := by
    rw [execute_eq_error_iff]
    simp
  have hunknown (path : String) (cause : NoTable) : plan.execute registry dataset = .error (.unknownTable path cause) ↔
      (∀ node ∈ plan.nodes, ∀ m, ¬ node.Wrong registry m) ∧ FirstFault dataset.LacksTable plan.paths path cause := by
    rw [execute_eq_error_iff]
    simp
  refine ⟨?_, hmalformed, hunknown, ?_⟩
  · simp only [hmalformed]
    rw [exists_comm, exists_firstFault]
  · constructor
    · rintro ⟨outcome, houtcome⟩
      have hnodes : ∀ node ∈ plan.nodes, ∀ m, ¬ node.Wrong registry m := by
        intro node hnode m hwrong
        obtain ⟨first, fault, hfirst⟩ := exists_firstFault.mpr ⟨node, hnode, m, hwrong⟩
        rw [(hmalformed fault).mpr ⟨first, hfirst⟩] at houtcome
        cases houtcome
      refine ⟨hnodes, ?_⟩
      intro path hpath
      rw [Dataset.hasTable_iff_not_lacksTable]
      intro cause hlacks
      obtain ⟨first, fault, hfirst⟩ := exists_firstFault.mpr ⟨path, hpath, cause, hlacks⟩
      rw [(hunknown first fault).mpr ⟨hnodes, hfirst⟩] at houtcome
      cases houtcome
    · rintro ⟨hnodes, hpaths⟩
      cases hrun : plan.execute registry dataset with
      | ok outcome => exact ⟨outcome, rfl⟩
      | error e =>
        rcases execute_eq_error_iff.mp hrun with ⟨m, ⟨node, hfirst⟩, -⟩ | ⟨-, path, cause, hfirst, -⟩
        · obtain ⟨node, hnode, m, hwrong⟩ := exists_firstFault.mp ⟨node, m, hfirst⟩
          exact absurd hwrong (hnodes node hnode m)
        · obtain ⟨path, hpath, cause, hlacks⟩ := exists_firstFault.mp ⟨path, cause, hfirst⟩
          exact absurd hlacks (Dataset.hasTable_iff_not_lacksTable.mp (hpaths path hpath) cause)

end Plan

end JsonTables
