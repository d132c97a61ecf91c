/-
  JsonTables.Proofs.Query.Registries — plans under two registries that know the same functions.

  Two registries agree if they have functions of the same names, arities and kinds and the same constants, and a
  function may differ from its counterpart only on lists that its arity does not accept, an aggregate one
  nowhere. A checked call never gives a function such a list, so no plan can tell the two apart: neither by its
  result nor by what is noted on the way. Every stage is shown to be the same in both scopes if the expressions
  it evaluates are.

  Proved:
  - `Expr.eval_of_agrees`: a checked expression has the same value in both, whatever the row.
  - `workingRows_of_agrees`, `projectedRows_of_agrees`: so have the stages of a plan.
  - `execute_of_agrees`: every plan comes to the same on every dataset.
-/

import JsonTables.Proofs.Entries
import JsonTables.Proofs.Evaluation
import JsonTables.Proofs.Query.Check
import JsonTables.Proofs.Query.Projection
import JsonTables.Query.Execute

namespace JsonTables

/-- The functions differ at most on lists of arguments that no checked call gives them. -/
structure Function.Agrees (f g : Function) : Prop where
  arity : f.arity = g.arity
  aggregate : f.aggregate = g.aggregate
  run : ∀ values, f.aggregate = true ∨ f.arity.accepts values.length = true → f.run values = g.run values

/-- The registries have the same names and constants, and functions that agree under them. -/
structure Registry.Agrees (r s : Registry) : Prop where
  functions : ∀ name, Option.Rel Function.Agrees (r.lookup? name) (s.lookup? name)
  constants : ∀ name, r.constant? name = s.constant? name

theorem Function.Agrees.refl (f : Function) : f.Agrees f := ⟨rfl, rfl, fun _ _ => rfl⟩

/-! ## Computations that are the same -/

section Computations

open Evaluation

variable {α β : Type}

/-- What follows a computation need only be the same for the results that it can have. -/
theorem bind_congr_of_outcome {x : Evaluation α} (hx : Steady x) {f g : α → Evaluation β}
    (h : ∀ a, x.outcome = .ok a → f a = g a) : (x >>= f) = (x >>= g) := by
  have hstart : ∀ journal, (x >>= f).start journal = (x >>= g).start journal := by
    intro journal
    have hjournal := hx journal
    rw [start_bind, start_bind]
    rcases hrun : x.start journal with ⟨fault | a, noted⟩
    · rfl
    · rw [hrun] at hjournal
      show (f a).start noted = (g a).start noted
      rw [h a hjournal.symm]
  funext journal
  exact hstart journal

theorem foldlM_congr {f g : β → α → Evaluation β} {as : List α} (h : ∀ a ∈ as, ∀ b, f b a = g b a) (b : β) :
    as.foldlM f b = as.foldlM g b := by
  induction as generalizing b with
  | nil => rfl
  | cons a as ih =>
    obtain ⟨ha, has⟩ := List.forall_mem_cons.mp h
    rw [List.foldlM_cons, List.foldlM_cons, ha b]
    congr 1
    funext c
    exact ih has c

theorem length_of_evalAll {scope : Scope} {row : Row} {es : List Expr} {values : List Value}
    (h : (Expr.evalAll scope row es).outcome = .ok values) : values.length = es.length := by
  induction es generalizing values with
  | nil => cases h; rfl
  | cons e es ih =>
    have hrest := fun v => (Expr.steady_evalAll scope row es).bind fun vs => steady_pure (v :: vs)
    unfold Expr.evalAll at h
    rw [outcome_bind (Expr.steady_eval scope row e) hrest] at h
    cases hv : (e.eval scope row).outcome with
    | error fault => rw [hv] at h; cases h
    | ok v =>
      rw [hv] at h
      change (Expr.evalAll scope row es >>= fun vs => pure (v :: vs)).outcome = .ok values at h
      rw [outcome_bind (Expr.steady_evalAll scope row es) fun _ => steady_pure _] at h
      obtain ⟨vs, hvs, rfl⟩ := bind_eq_ok h
      simp [ih hvs]

end Computations

/-! ## Names, calls and checks -/

namespace Registry.Agrees

variable {r s : Registry} (h : r.Agrees s)

include h

/-- Neither registry knows the function, or both do. -/
theorem lookup_cases (name : String) : (r.lookup? name = none ∧ s.lookup? name = none) ∨
    ∃ f g, r.lookup? name = some f ∧ s.lookup? name = some g ∧ f.Agrees g := by
  have hfunctions := h.functions name
  generalize r.lookup? name = found at hfunctions
  generalize s.lookup? name = found' at hfunctions
  cases hfunctions with
  | none => exact .inl ⟨rfl, rfl⟩
  | some hfg => exact .inr ⟨_, _, rfl, rfl, hfg⟩

theorem isAggregate (name : String) : r.isAggregate name = s.isAggregate name := by
  unfold Registry.isAggregate
  rcases h.lookup_cases name with ⟨hf, hg⟩ | ⟨f, g, hf, hg, hfg⟩
  · rw [hf, hg]
  · rw [hf, hg]
    exact hfg.aggregate

theorem isAggregateCall : r.isAggregateCall = s.isAggregateCall := by
  funext e
  cases e <;> simp only [Registry.isAggregateCall, h.isAggregate]

theorem fault? (point : CheckPoint) : point.fault? r = point.fault? s := by
  cases point with
  | window name => rfl
  | call name count =>
    unfold CheckPoint.fault?
    dsimp only
    rcases h.lookup_cases name with ⟨hf, hg⟩ | ⟨f, g, hf, hg, hfg⟩
    · rw [hf, hg]
    · rw [hf, hg]
      simp only [hfg.arity]

theorem check (plan : Plan) : plan.check r = plan.check s := by
  have hfault : CheckPoint.fault? r = CheckPoint.fault? s := funext h.fault?
  unfold Plan.check
  rw [hfault]

theorem resolve? (bindings : Entries Value) : Scope.resolve? ⟨r, bindings⟩ = Scope.resolve? ⟨s, bindings⟩ := by
  funext row name
  simp only [Scope.resolve?, h.constants]

theorem aggregate? (row : Row) (call : Expr) : row.aggregate? r call = row.aggregate? s call := by
  simp only [Row.aggregate?, h.isAggregateCall]

end Registry.Agrees

section

variable {r s : Registry}

mutual

/-- Which calls of an expression are aggregate depends on the calls alone. -/
theorem Expr.aggregates_congr (h : r.isAggregateCall = s.isAggregateCall) : ∀ e : Expr, e.aggregates r = e.aggregates s
  | .literal _ | .column _ | .callStar _ => by simp only [Expr.aggregates, h]
  | .call name args => by simp only [Expr.aggregates, h, Expr.aggregatesAll_congr h args]
  | .binary op left right => by
    simp only [Expr.aggregates, h, Expr.aggregates_congr h left, Expr.aggregates_congr h right]
  | .negate operand => by simp only [Expr.aggregates, h, Expr.aggregates_congr h operand]

theorem Expr.aggregatesAll_congr (h : r.isAggregateCall = s.isAggregateCall) :
    ∀ es : List Expr, Expr.aggregatesAll r es = Expr.aggregatesAll s es
  | [] => rfl
  | e :: rest => by simp only [Expr.aggregatesAll, Expr.aggregates_congr h e, Expr.aggregatesAll_congr h rest]

end

namespace Registry.Agrees

theorem aggregates (h : r.Agrees s) : Expr.aggregates r = Expr.aggregates s :=
  funext (Expr.aggregates_congr h.isAggregateCall)

theorem selected (h : r.Agrees s) : Selected.aggregates r = Selected.aggregates s := by
  funext content
  rw [Selected.aggregates_eq, Selected.aggregates_eq, h.aggregates]

theorem predicate (h : r.Agrees s) : Predicate.aggregates r = Predicate.aggregates s := by
  funext p
  rw [Predicate.aggregates_eq, Predicate.aggregates_eq, h.aggregates]

theorem collectAggregates (h : r.Agrees s) (select : List SelectItem) (having : Option Predicate)
    (orderBy : List OrderItem) : collectAggregates r select having orderBy = collectAggregates s select having orderBy := by
  simp only [JsonTables.collectAggregates, h.aggregates, h.selected, h.predicate]

theorem isGrouped (h : r.Agrees s) (plan : Plan) : plan.isGrouped r = plan.isGrouped s := by
  simp only [Plan.isGrouped, h.selected, h.predicate]

theorem columns (h : r.Agrees s) (plan : Plan) (rows : List Row) : plan.columns r rows = plan.columns s rows := by
  have hhidden : plan.hiddenNames r = plan.hiddenNames s := by
    simp only [Plan.hiddenNames, h.collectAggregates]
  simp only [Plan.columns, Plan.starColumns, hhidden]

end Registry.Agrees

end

/-! ## Expressions -/

section Expressions

variable {r s : Registry}

mutual

/-- A checked expression comes to the same under both registries. -/
theorem Expr.eval_of_agrees (h : r.Agrees s) (bindings : Entries Value) (row : Row) :
    ∀ e : Expr, e.Checked r → e.eval ⟨r, bindings⟩ row = e.eval ⟨s, bindings⟩ row
  | .literal l, _ => rfl
  | .column name, _ => by
    unfold Expr.eval
    rw [h.resolve?]
  | .call name args, hchecked => by
    have hargs := Expr.evalAll_of_agrees h bindings row args fun a ha => hchecked.argument ha
    unfold Expr.eval
    simp only [h.aggregate?]
    split
    · rfl
    · rcases h.lookup_cases name with ⟨hf, hg⟩ | ⟨f, g, hf, hg, hfg⟩
      · rw [hf, hg]
      · simp only [hf, hg, hargs]
        refine bind_congr_of_outcome (Expr.steady_evalAll _ _ _) fun values hvalues => ?_
        have hlength := length_of_evalAll hvalues
        rw [hfg.run values (.inr (hlength ▸ hchecked.accepts_call hf))]
  | .callStar name, hchecked => by
    unfold Expr.eval
    simp only [h.aggregate?]
    split
    · rfl
    · rcases h.lookup_cases name with ⟨hf, hg⟩ | ⟨f, g, hf, hg, hfg⟩
      · rw [hf, hg]
      · simp only [hf, hg, hfg.run [Value.ofInt 1] (.inr (hchecked.accepts_callStar hf))]
  | .binary op left right, hchecked => by
    unfold Expr.eval
    rw [Expr.eval_of_agrees h bindings row left hchecked.left, Expr.eval_of_agrees h bindings row right hchecked.right]
  | .negate operand, hchecked => by
    unfold Expr.eval
    rw [Expr.eval_of_agrees h bindings row operand hchecked.operand]

theorem Expr.evalAll_of_agrees (h : r.Agrees s) (bindings : Entries Value) (row : Row) :
    ∀ es : List Expr, (∀ e ∈ es, e.Checked r) → Expr.evalAll ⟨r, bindings⟩ row es = Expr.evalAll ⟨s, bindings⟩ row es
  | [], _ => rfl
  | e :: rest, hchecked => by
    obtain ⟨he, hrest⟩ := List.forall_mem_cons.mp hchecked
    unfold Expr.evalAll
    rw [Expr.eval_of_agrees h bindings row e he, Expr.evalAll_of_agrees h bindings row rest hrest]

end

theorem argumentValue_of_agrees (h : r.Agrees s) (bindings : Entries Value) (row : Row) {e : Expr}
    (hchecked : e.Checked r) : argumentValue ⟨r, bindings⟩ row e = argumentValue ⟨s, bindings⟩ row e := by
  have heval := Expr.eval_of_agrees h bindings row e hchecked
  cases e with
  | column name =>
    unfold argumentValue
    rw [h.resolve?]
  | _ => exact heval

/-- An aggregate function gets lists of any length, but there it is the same under both registries. -/
theorem aggregateValue_of_agrees (h : r.Agrees s) (bindings : Entries Value) (bucket : List Row) {c : Expr}
    (hcall : r.isAggregateCall c = true) (hchecked : c.Checked r) :
    aggregateValue ⟨r, bindings⟩ bucket c = aggregateValue ⟨s, bindings⟩ bucket c := by
  have hlookup (name : String) (haggregate : r.isAggregate name = true) :
      ∃ f g, r.lookup? name = some f ∧ s.lookup? name = some g ∧ ∀ values, f.run values = g.run values := by
    rcases h.lookup_cases name with ⟨hf, -⟩ | ⟨f, g, hf, hg, hfg⟩
    · rw [Registry.isAggregate, hf] at haggregate
      cases haggregate
    · rw [Registry.isAggregate, hf] at haggregate
      exact ⟨f, g, hf, hg, fun values => hfg.run values (.inl haggregate)⟩
  cases c with
  | callStar name =>
    obtain ⟨f, g, hf, hg, hrun⟩ := hlookup name hcall
    simp only [aggregateValue, hf, hg, hrun]
  | call name args =>
    rcases args with _ | ⟨argument, rest⟩
    · cases hcall
    · obtain ⟨f, g, hf, hg, hrun⟩ := hlookup name (Bool.and_eq_true_iff.mp hcall).2
      have hargument (row : Row) := argumentValue_of_agrees h bindings row (hchecked.argument List.mem_cons_self)
      simp only [aggregateValue, hf, hg, hrun, hargument]
  | _ => rfl

end Expressions

/-! ## The stages of a plan -/

/-- The expression comes to the same in both scopes, whatever the row. -/
def Expr.Alike (scope scope' : Scope) (e : Expr) : Prop := ∀ row, e.eval scope row = e.eval scope' row

section Stages

variable {scope scope' : Scope}

theorem Predicate.test_congr {p : Predicate} (h : ∀ e ∈ p.exprs, e.Alike scope scope') (row : Row) :
    p.test scope row = p.test scope' row := by
  induction p with
  | truth e =>
    unfold Predicate.test
    rw [h e (by simp [exprs]) row]
  | compare op left right =>
    unfold Predicate.test
    rw [h left (by simp [exprs]) row, h right (by simp [exprs]) row]
  | and left right ihl ihr =>
    unfold Predicate.test
    rw [ihl fun e he => h e (by simp [exprs, he]), ihr fun e he => h e (by simp [exprs, he])]
  | or left right ihl ihr =>
    unfold Predicate.test
    rw [ihl fun e he => h e (by simp [exprs, he]), ihr fun e he => h e (by simp [exprs, he])]

theorem filterRows_congr {condition : Option Predicate}
    (h : ∀ e ∈ condition.toList.flatMap Predicate.exprs, e.Alike scope scope') (clause : Clause) :
    Plan.filterRows scope clause condition = Plan.filterRows scope' clause condition := by
  funext rows
  cases condition with
  | none => rfl
  | some p =>
    have htest : p.test scope = p.test scope' := funext (Predicate.test_congr (by simpa using h))
    unfold Plan.filterRows
    simp only [htest]

theorem rowKeys_congr {exprs : List Expr} (h : ∀ e ∈ exprs, e.Alike scope scope') :
    rowKeys scope exprs = rowKeys scope' exprs := by
  funext row
  exact mapM_congr fun e he => by rw [h e he row]

theorem groupsOf_congr {groupBy : List Expr} (h : ∀ e ∈ groupBy, e.Alike scope scope') :
    groupsOf scope groupBy = groupsOf scope' groupBy := by
  funext rows
  unfold groupsOf
  rw [rowKeys_congr h]

theorem groupRow_congr {calls : Entries Expr}
    (h : ∀ e ∈ calls, ∀ bucket, aggregateValue scope bucket e.2 = aggregateValue scope' bucket e.2) :
    groupRow scope calls = groupRow scope' calls := by
  funext bucket
  exact foldlM_congr (fun e he row => by rw [h e he bucket]) _

theorem windowRanks_congr {w : Window} (hpartition : ∀ e ∈ w.partitionBy, e.Alike scope scope')
    (horder : ∀ o ∈ w.orderBy, o.expr.Alike scope scope') : w.ranks scope = w.ranks scope' := by
  have hvalues (row : Row) : (w.orderBy.mapM fun o => o.expr.eval scope row) = w.orderBy.mapM fun o => o.expr.eval scope' row :=
    mapM_congr fun o ho => horder o ho row
  funext rows
  unfold Window.ranks
  simp only [rowKeys_congr hpartition, hvalues]

theorem applyWindows_congr {select : List SelectItem}
    (h : ∀ e ∈ select.flatMap (·.content.exprs), e.Alike scope scope') :
    applyWindows scope select = applyWindows scope' select := by
  have hranks : ∀ x ∈ windowItems select, x.2.ranks scope = x.2.ranks scope' := by
    rintro ⟨name, w⟩ hx
    obtain ⟨item, hitem, hcontent⟩ := exists_item_of_window hx
    have hexprs (e : Expr) (he : e ∈ (Selected.window w).exprs) : e.Alike scope scope' :=
      h e (List.mem_flatMap.mpr ⟨item, hitem, hcontent ▸ he⟩)
    exact windowRanks_congr (fun e he => hexprs e (List.mem_append_left _ he))
      fun o ho => hexprs o.expr (List.mem_append_right _ (List.mem_map_of_mem ho))
  funext rows
  unfold applyWindows
  dsimp only
  split
  · rfl
  · exact congrArg (· >>= _) (mapM_congr fun x hx => by simp only [hranks x hx])

theorem joinRows_congr (h : scope.resolve? = scope'.resolve?) : joinRows scope = joinRows scope' := by
  have hkey : scope.keyText? = scope'.keyText? := by
    funext name row
    unfold Scope.keyText?
    rw [h]
  unfold joinRows
  rw [hkey]

theorem joinAll_congr (h : scope.resolve? = scope'.resolve?) (rows : List Row) (joins : List (Join × List Row)) :
    joinAll scope rows joins = joinAll scope' rows joins := by
  induction joins generalizing rows with
  | nil => rfl
  | cons join joins ih =>
    unfold joinAll
    simp only [joinRows_congr h, ih]

theorem projectRow_congr {columns : List (String × ColumnSource)}
    (h : ∀ name e, (name, .expr e) ∈ columns → e.Alike scope scope') (hresolve : scope.resolve? = scope'.resolve?) :
    projectRow scope columns = projectRow scope' columns := by
  have hvalue : ∀ c ∈ columns, ∀ row, c.2.value scope row = c.2.value scope' row := by
    rintro ⟨name, source⟩ hc row
    cases source with
    | starred key => rfl
    | rank name => rfl
    | column name =>
      unfold ColumnSource.value
      rw [hresolve]
    | expr e => exact h name e hc row
  funext row
  unfold projectRow
  exact congrArg (· >>= _) (mapM_congr fun c hc => by simp only [hvalue c hc row])

theorem orderRows_congr {orderBy : List OrderItem} (h : ∀ o ∈ orderBy, o.expr.Alike scope scope') :
    orderRows scope orderBy = orderRows scope' orderBy := by
  have hvalues (p : Projected) : orderBy.mapM (sortValue scope p) = orderBy.mapM (sortValue scope' p) := by
    refine mapM_congr fun o ho => ?_
    unfold sortValue
    rw [h o ho p.source]
  funext rows
  unfold orderRows
  simp only [hvalues]

end Stages

/-! ## Plans -/

section Plans

variable {r s : Registry} {plan : Plan}

theorem groupRow_of_agrees (h : r.Agrees s) (hplan : ∀ e ∈ plan.exprs, e.Checked r) (bindings : Entries Value) :
    groupRow ⟨r, bindings⟩ (collectAggregates r plan.select plan.having plan.orderBy) =
      groupRow ⟨s, bindings⟩ (collectAggregates r plan.select plan.having plan.orderBy) := by
  refine groupRow_congr fun entry hentry bucket => ?_
  rw [collectAggregates_eq] at hentry
  obtain ⟨c, hc, rfl⟩ := List.mem_map.mp hentry
  have hc := mem_of_mem_distinctCalls hc
  obtain ⟨e, he, hin⟩ := Plan.exists_expr_of_call hc
  exact aggregateValue_of_agrees h bindings bucket (isAggregateCall_of_mem hc) (.outermost hin (hplan e he))

theorem groupRows_of_agrees (h : r.Agrees s) (hplan : ∀ e ∈ plan.exprs, e.Checked r) (bindings : Entries Value) :
    groupRows ⟨r, bindings⟩ plan.groupBy plan.select plan.having plan.orderBy =
      groupRows ⟨s, bindings⟩ plan.groupBy plan.select plan.having plan.orderBy := by
  have hgroups : groupsOf ⟨r, bindings⟩ plan.groupBy = groupsOf ⟨s, bindings⟩ plan.groupBy :=
    groupsOf_congr fun e he row => Expr.eval_of_agrees h bindings row e (hplan e (Plan.mem_exprs_of_groupBy he))
  funext rows
  unfold groupRows
  dsimp only
  rw [hgroups, groupRow_of_agrees h hplan bindings, h.collectAggregates]

theorem workingRows_of_agrees (h : r.Agrees s) (hplan : ∀ e ∈ plan.exprs, e.Checked r) (bindings : Entries Value)
    (tables : SourceTables) : plan.workingRows ⟨r, bindings⟩ tables = plan.workingRows ⟨s, bindings⟩ tables := by
  have halike : ∀ e ∈ plan.exprs, e.Alike ⟨r, bindings⟩ ⟨s, bindings⟩ :=
    fun e he row => Expr.eval_of_agrees h bindings row e (hplan e he)
  have hjoins := joinAll_congr (h.resolve? bindings)
  have hwhere := filterRows_congr (fun e he => halike e (Plan.mem_exprs_of_where he)) .where_
  have hhaving := filterRows_congr (fun e he => halike e (Plan.mem_exprs_of_having he)) .having
  have hwindows := applyWindows_congr fun e he => halike e (Plan.mem_exprs_of_select he)
  have hgroups := groupRows_of_agrees h hplan bindings
  unfold Plan.workingRows
  simp only [hjoins, hwhere, hhaving, hwindows, hgroups, h.isGrouped]

theorem projectedRows_of_agrees (h : r.Agrees s) (hplan : ∀ e ∈ plan.exprs, e.Checked r) (bindings : Entries Value)
    (rows : List Row) :
    plan.projectedRows ⟨r, bindings⟩ (plan.columns r rows) rows =
      plan.projectedRows ⟨s, bindings⟩ (plan.columns s rows) rows := by
  have halike : ∀ e ∈ plan.exprs, e.Alike ⟨r, bindings⟩ ⟨s, bindings⟩ :=
    fun e he row => Expr.eval_of_agrees h bindings row e (hplan e he)
  have hproject : projectRow ⟨r, bindings⟩ (plan.columns r rows) = projectRow ⟨s, bindings⟩ (plan.columns r rows) := by
    refine projectRow_congr (fun name e he => ?_) (h.resolve? bindings)
    obtain ⟨item, hitem, hcontent⟩ := exists_item_of_expr he
    refine halike e (Plan.mem_exprs_of_select (List.mem_flatMap.mpr ⟨item, hitem, ?_⟩))
    rw [hcontent]
    exact List.mem_singleton_self e
  have horder := orderRows_congr fun o ho => halike o.expr (Plan.mem_exprs_of_orderBy ho)
  unfold Plan.projectedRows
  rw [hproject, horder, h.columns]

theorem evaluate_of_agrees (h : r.Agrees s) (hplan : ∀ e ∈ plan.exprs, e.Checked r) (tables : SourceTables) :
    plan.evaluate r tables = plan.evaluate s tables := by
  unfold Plan.evaluate
  dsimp only
  rw [workingRows_of_agrees h hplan]
  congr 1
  funext rows
  rw [projectedRows_of_agrees h hplan, h.columns]

theorem tables_of_agrees (h : r.Agrees s) (plan : Plan) (dataset : Dataset) :
    plan.tables r dataset = plan.tables s dataset := by
  unfold Plan.tables
  rw [h.check]

/-- Registries that differ only in what their functions do with lists of arguments that their arities do not
accept carry out every plan alike: both refuse it, or it comes to the same with the same notes. -/
theorem execute_of_agrees (h : r.Agrees s) (plan : Plan) (dataset : Dataset) :
    plan.execute r dataset = plan.execute s dataset := by
  have htables := tables_of_agrees h plan dataset
  unfold Plan.execute
  rw [← htables]
  cases hfound : plan.tables r dataset with
  | error e =>
    show Except.error e = Except.error e
    rfl
  | ok tables =>
    have hchecked := checked_of_check (Plan.check_of_tables hfound)
    show Except.ok ((plan.evaluate r tables).start []) = Except.ok ((plan.evaluate s tables).start [])
    rw [evaluate_of_agrees h hchecked]

/-- A function that fails wherever it is not given one argument takes the place of `upper`, and a plan that calls it
in its select list, a condition and an aggregate argument does not notice. -/
theorem execute_of_agrees_upper :
    let strict : Function := Function.plain 1 1 fun values =>
      if values.length = 1 then Function.ofText Text.upper values else .error .domain
    let upper (e : Expr) : Expr := .call "upper" [e]
    let plan : Plan := { Plan.blank with
      select := [⟨.expr (upper (.call "max" [upper (.column "a")])), none⟩],
      table := "t", where_ := some (.truth (upper (.column "a"))) }
    let dataset : Dataset := ⟨[("t", .list [.map [("a", .text "x")]])]⟩
    Registry.builtin.Agrees (Registry.builtin.register "upper" strict) ∧
      plan.execute Registry.builtin dataset = plan.execute (Registry.builtin.register "upper" strict) dataset := by
  intro strict upper plan dataset
  have hsame : Option.Rel Function.Agrees (some (Function.plain 1 1 (Function.ofText Text.upper))) (some strict) := by
    refine .some ⟨rfl, rfl, fun values hvalues => ?_⟩
    have hlength : values.length = 1 := by
      rcases hvalues with haggregate | haccepts
      · cases haggregate
      · obtain ⟨hleast, hmost⟩ := Bool.and_eq_true_iff.mp haccepts
        exact Nat.le_antisymm (of_decide_eq_true hmost) (of_decide_eq_true hleast)
    simp [strict, Function.plain, hlength]
  have hagrees : Registry.builtin.Agrees (Registry.builtin.register "upper" strict) := by
    refine ⟨fun name => ?_, fun name => rfl⟩
    show Option.Rel _ (Registry.builtin.lookup? name) (Entries.get? (Entries.insert _ _ _) (Text.lower name))
    rw [Entries.get?_insert]
    by_cases hname : Text.lower "upper" = Text.lower name
    · have hbuiltin : Registry.builtin.lookup? name = some (Function.plain 1 1 (Function.ofText Text.upper)) := by
        unfold Registry.lookup?
        rw [← hname]
        rfl
      rw [if_pos hname, hbuiltin]
      exact hsame
    · rw [if_neg hname]
      show Option.Rel _ (Registry.builtin.lookup? name) (Registry.builtin.lookup? name)
      cases Registry.builtin.lookup? name with
      | none => exact .none
      | some f => exact .some (.refl f)
  exact ⟨hagrees, execute_of_agrees hagrees plan dataset⟩

end Plans

end JsonTables
