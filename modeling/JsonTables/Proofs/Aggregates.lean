/-
  JsonTables.Proofs.Aggregates — the aggregate calls that a query computes.

  They are the outermost ones of the select list, the condition and the order, windows included. Of the
  calls of one text the first is computed for all.

  Proved:
  - `mem_outermostCalls`: which calls these are.
  - `find?_distinctCalls`: the call that is kept for a text is the first one.
  - `collectAggregates_eq`: collecting keeps these calls under their texts.
-/

import JsonTables.Group
import JsonTables.Proofs.Entries

namespace JsonTables

/-! ## Aggregate calls -/

/-- `c` is an aggregate call in an expression that lies in no other one. -/
inductive Expr.Outermost (registry : Registry) (c : Expr) : Expr → Prop
  | self : registry.isAggregateCall c = true → Outermost registry c c
  | argument {name : String} {args : List Expr} {a : Expr} :
      registry.isAggregateCall (.call name args) = false → a ∈ args → Outermost registry c a →
      Outermost registry c (.call name args)
  | left {op : Operator} {l r : Expr} : Outermost registry c l → Outermost registry c (.binary op l r)
  | right {op : Operator} {l r : Expr} : Outermost registry c r → Outermost registry c (.binary op l r)
  | operand {e : Expr} : Outermost registry c e → Outermost registry c (.negate e)

mutual

theorem Expr.mem_aggregates {registry : Registry} {c : Expr} :
    ∀ e : Expr, c ∈ e.aggregates registry ↔ Expr.Outermost registry c e
  | .literal l => by
    have hno : registry.isAggregateCall (.literal l) = false := rfl
    simp only [Expr.aggregates, hno]
    exact ⟨fun h => by simp at h, fun h => by cases h; simp_all⟩
  | .column name => by
    have hno : registry.isAggregateCall (.column name) = false := rfl
    simp only [Expr.aggregates, hno]
    exact ⟨fun h => by simp at h, fun h => by cases h; simp_all⟩
  | .callStar name => by
    by_cases hc : registry.isAggregateCall (.callStar name) = true
    · simp only [Expr.aggregates, hc, if_true, List.mem_singleton]
      exact ⟨fun h => by subst h; exact .self hc, fun h => by cases h; rfl⟩
    · simp only [Expr.aggregates, hc]
      exact ⟨fun h => by simp at h, fun h => by cases h; contradiction⟩
  | .call name args => by
    by_cases hc : registry.isAggregateCall (.call name args) = true
    · simp only [Expr.aggregates, hc, if_true, List.mem_singleton]
      exact ⟨fun h => by subst h; exact .self hc, fun h => by cases h <;> simp_all⟩
    · have hno : registry.isAggregateCall (.call name args) = false := by simpa using hc
      simp only [Expr.aggregates, hno, Bool.false_eq_true, if_false, Expr.mem_aggregatesAll args]
      constructor
      · intro h
        obtain ⟨a, ha, h⟩ := h
        exact .argument hno ha h
      · intro h
        cases h with
        | self h => exact absurd h hc
        | argument _ ha h => exact ⟨_, ha, h⟩
  | .binary op l r => by
    have hno : registry.isAggregateCall (.binary op l r) = false := rfl
    simp only [Expr.aggregates, hno, Bool.false_eq_true, if_false, List.mem_append, Expr.mem_aggregates l,
      Expr.mem_aggregates r]
    constructor
    · intro h
      rcases h with h | h
      · exact .left h
      · exact .right h
    · intro h
      cases h with
      | self h => exact absurd h (by simp [hno])
      | left h => exact Or.inl h
      | right h => exact Or.inr h
  | .negate e => by
    have hno : registry.isAggregateCall (.negate e) = false := rfl
    simp only [Expr.aggregates, hno, Bool.false_eq_true, if_false, Expr.mem_aggregates e]
    constructor
    · exact .operand
    · intro h
      cases h with
      | self h => exact absurd h (by simp [hno])
      | operand h => exact h

theorem Expr.mem_aggregatesAll {registry : Registry} {c : Expr} :
    ∀ es : List Expr, c ∈ Expr.aggregatesAll registry es ↔ ∃ e ∈ es, Expr.Outermost registry c e
  | [] => by simp [Expr.aggregatesAll]
  | e :: rest => by simp [Expr.aggregatesAll, Expr.mem_aggregates e, Expr.mem_aggregatesAll rest]

end

/-- The expressions that a select item evaluates: those of a window are its partition and its order. -/
def Selected.exprs : Selected → List Expr
  | .star => []
  | .expr e => [e]
  | .window w => w.partitionBy ++ w.orderBy.map (·.expr)

/-- The expressions that a condition compares or tests, from left to right. -/
def Predicate.exprs : Predicate → List Expr
  | .truth e => [e]
  | .compare _ left right => [left, right]
  | .and left right => left.exprs ++ right.exprs
  | .or left right => left.exprs ++ right.exprs

theorem Predicate.aggregates_eq (registry : Registry) (p : Predicate) :
    p.aggregates registry = p.exprs.flatMap (Expr.aggregates registry) := by
  induction p with
  | truth e => simp [aggregates, exprs]
  | compare op left right => simp [aggregates, exprs]
  | and left right ihl ihr => simp [aggregates, exprs, ihl, ihr]
  | or left right ihl ihr => simp [aggregates, exprs, ihl, ihr]

theorem Selected.aggregates_eq (registry : Registry) (s : Selected) :
    s.aggregates registry = s.exprs.flatMap (Expr.aggregates registry) := by
  cases s <;> simp [aggregates, exprs, Window.aggregates, List.flatMap_map]

/-- The outermost aggregate calls of a select list, a condition and an order, as they stand. -/
def outermostCalls (registry : Registry) (select : List SelectItem) (having : Option Predicate)
    (orderBy : List OrderItem) : List Expr :=
  select.flatMap (fun i => i.content.exprs.flatMap (Expr.aggregates registry)) ++
    having.toList.flatMap (fun p => p.exprs.flatMap (Expr.aggregates registry)) ++
    orderBy.flatMap fun o => o.expr.aggregates registry

theorem mem_outermostCalls {registry : Registry} {select : List SelectItem} {having : Option Predicate}
    {orderBy : List OrderItem} {c : Expr} :
    c ∈ outermostCalls registry select having orderBy ↔
      (∃ i ∈ select, ∃ e ∈ i.content.exprs, Expr.Outermost registry c e) ∨
      (∃ p, having = some p ∧ ∃ e ∈ p.exprs, Expr.Outermost registry c e) ∨
      ∃ o ∈ orderBy, Expr.Outermost registry c o.expr := by
  cases having <;> simp [outermostCalls, Expr.mem_aggregates]

theorem isAggregateCall_of_outermost {registry : Registry} {c e : Expr} (h : Expr.Outermost registry c e) :
    registry.isAggregateCall c = true := by
  induction h with
  | self h => exact h
  | argument _ _ _ ih => exact ih
  | left _ ih => exact ih
  | right _ ih => exact ih
  | operand _ ih => exact ih

theorem isAggregateCall_of_mem {registry : Registry} {select : List SelectItem} {having : Option Predicate}
    {orderBy : List OrderItem} {c : Expr} (h : c ∈ outermostCalls registry select having orderBy) :
    registry.isAggregateCall c = true := by
  rcases mem_outermostCalls.mp h with ⟨_, _, _, _, h⟩ | ⟨_, _, _, _, h⟩ | ⟨_, _, h⟩
  · exact isAggregateCall_of_outermost h
  · exact isAggregateCall_of_outermost h
  · exact isAggregateCall_of_outermost h

/-! ## Calls by their texts -/

/-- Of the calls of one text the first. -/
def distinctCalls : List Expr → List Expr
  | [] => []
  | c :: rest => c :: (distinctCalls rest).filter fun d => d.key ≠ c.key

theorem mem_of_mem_distinctCalls {calls : List Expr} {c : Expr} (h : c ∈ distinctCalls calls) : c ∈ calls := by
  induction calls with
  | nil => exact h
  | cons d rest ih =>
    rcases List.mem_cons.mp h with rfl | h
    · simp
    · exact List.mem_cons_of_mem _ (ih (List.mem_filter.mp h).1)

/-- Every text of a call has a first call. -/
theorem exists_distinctCall {calls : List Expr} {c : Expr} (h : c ∈ calls) :
    ∃ d ∈ distinctCalls calls, d.key = c.key := by
  induction calls with
  | nil => simp at h
  | cons d rest ih =>
    by_cases hd : d.key = c.key
    · exact ⟨d, by simp [distinctCalls], hd⟩
    · have hrest : c ∈ rest := by
        rcases List.mem_cons.mp h with rfl | h
        · exact absurd rfl hd
        · exact h
      obtain ⟨e, he, hkey⟩ := ih hrest
      refine ⟨e, List.mem_cons_of_mem _ (List.mem_filter.mpr ⟨he, ?_⟩), hkey⟩
      simpa [hkey] using Ne.symm hd

theorem nodup_distinctCalls (calls : List Expr) : ((distinctCalls calls).map Expr.key).Nodup := by
  induction calls with
  | nil => simp [distinctCalls]
  | cons c rest ih =>
    simp only [distinctCalls, List.map_cons, List.nodup_cons]
    refine ⟨by simp, ?_⟩
    exact (List.Sublist.map _ List.filter_sublist).nodup ih

/-- The first call of a text among all calls is the one that is kept. -/
theorem find?_distinctCalls (calls : List Expr) (text : String) :
    (distinctCalls calls).find? (·.key == text) = calls.find? (·.key == text) := by
  induction calls with
  | nil => rfl
  | cons c rest ih =>
    by_cases hc : c.key = text
    · simp [distinctCalls, hc]
    · have hbeq : (c.key == text) = false := by simpa using hc
      have hsame : ((distinctCalls rest).filter fun d => d.key ≠ c.key).find? (·.key == text) =
          (distinctCalls rest).find? (·.key == text) := by
        rw [List.find?_filter]
        congr 1
        funext d
        by_cases hd : d.key = text
        · simp [hd, Ne.symm hc]
        · simp [hd]
      rw [distinctCalls, List.find?_cons, List.find?_cons, hbeq, hsame, ih]

/-- The entry of a call: the call under its text. -/
def keyed (c : Expr) : String × Expr := (c.key, c)

theorem filter_filter_key (calls : List Expr) (c : Expr) (names : List String) :
    (calls.filter fun d => d.key ≠ c.key).filter (·.key ∉ names) = calls.filter (·.key ∉ names ++ [c.key]) := by
  rw [List.filter_filter]
  apply List.filter_congr
  intro d _
  by_cases hd : d.key = c.key <;> simp [hd]

/-- Collecting calls by their texts keeps the first call of every text that is not there already. -/
theorem foldl_collect (calls : List Expr) (es : Entries Expr) :
    calls.foldl (fun es call => if (Entries.get? es call.key).isSome then es else es ++ [(call.key, call)]) es =
      es ++ ((distinctCalls calls).filter (·.key ∉ Entries.keys es)).map keyed := by
  induction calls generalizing es with
  | nil => simp [distinctCalls]
  | cons c rest ih =>
    have hsome : (Entries.get? es c.key).isSome = true ↔ c.key ∈ Entries.keys es := by
      rw [Option.isSome_iff_ne_none, Ne, Entries.get?_eq_none, Classical.not_not]
    rw [List.foldl_cons, ih, distinctCalls, List.filter_cons, filter_filter_key]
    by_cases hmem : c.key ∈ Entries.keys es
    · have hthere : (distinctCalls rest).filter (·.key ∉ Entries.keys es ++ [c.key]) =
          (distinctCalls rest).filter (·.key ∉ Entries.keys es) := by
        apply List.filter_congr
        intro d _
        by_cases hd : d.key = c.key <;> simp [hd, hmem]
      rw [if_pos (hsome.mpr hmem), hthere]
      simp [hmem]
    · have hkeys : Entries.keys (es ++ [(c.key, c)]) = Entries.keys es ++ [c.key] := by simp [Entries.keys]
      rw [if_neg (fun h => hmem (hsome.mp h)), hkeys]
      simp [hmem, keyed]

theorem collectAggregates_eq (registry : Registry) (select : List SelectItem) (having : Option Predicate)
    (orderBy : List OrderItem) :
    collectAggregates registry select having orderBy =
      (distinctCalls (outermostCalls registry select having orderBy)).map keyed := by
  have hcalls : select.flatMap (fun i => i.content.aggregates registry) ++
      ((having.map (Predicate.aggregates registry)).getD []) ++
      orderBy.flatMap (fun o => o.expr.aggregates registry) = outermostCalls registry select having orderBy := by
    cases having <;> simp [outermostCalls, Selected.aggregates_eq, Predicate.aggregates_eq]
  have hall : ∀ calls : List Expr, calls.filter (·.key ∉ Entries.keys ([] : Entries Expr)) = calls :=
    fun calls => List.filter_eq_self.mpr fun c _ => by simp [Entries.keys]
  unfold collectAggregates
  simp only [hcalls, foldl_collect, hall, List.nil_append]

end JsonTables
