/-
  JsonTables.Proofs.Calls — what an aggregate call comes to on the row of its group.

  The row holds for every text of a call the value of the first call of that text, and a call evaluated
  there has that value. For a call that is printable, as is the first one of its text, this is its own
  value: both calls are the same up to the case of names. Names that need backticks make texts that stand
  for two calls, and then the second call has the value of the first (`sum_of_quoted_column`).

  Proved:
  - `aggregateOver_of_lowered`: calls that differ in the case of names alone come to one value.
  - `valueOn_groupedRow`: a call has the value of the first call of its text.
  - `groupRows_calls`: so it is for all calls on the rows of all groups.
-/

import JsonTables.Proofs.Expr.Keys
import JsonTables.Proofs.Group

namespace JsonTables

/-! ## Calls in lower case -/

section Lowered

variable {scope : Scope} {bucket : List Row}

theorem argumentOn_of_lowered {row : Row} {e e' : Expr} (h : e.lowered = e'.lowered) :
    argumentOn scope row e = argumentOn scope row e' := by
  cases e with
  | column name =>
    cases e' <;> simp only [Expr.lowered, reduceCtorEq] at h
    rw [h]
  | _ =>
    cases e' with
    | column name => simp only [Expr.lowered, reduceCtorEq] at h
    | _ => exact Expr.valueOn_of_lowered h

theorem aggregateOver_of_lowered {c d : Expr} (h : c.lowered = d.lowered) :
    aggregateOver scope bucket c = aggregateOver scope bucket d := by
  cases c <;> cases d <;> simp only [Expr.lowered, reduceCtorEq, Expr.call.injEq, Expr.callStar.injEq] at h <;>
    try rfl
  · rename_i name args name' args'
    obtain ⟨hname, hargs⟩ := h
    rcases args with _ | ⟨a, args⟩ <;> rcases args' with _ | ⟨b, args'⟩
    · rfl
    · cases hargs
    · cases hargs
    · have ha := (List.cons.inj hargs).1
      have hargument : (fun r => argumentOn scope r a) = fun r => argumentOn scope r b :=
        funext fun r => argumentOn_of_lowered ha
      simp only [aggregateOver, Expr.lookup?_of_lower hname, hargument]
  · simp only [aggregateOver, Expr.lookup?_of_lower h]

end Lowered

/-! ## A call on the row of a group -/

theorem valueOn_of_aggregate? {scope : Scope} {row : Row} {c : Expr} {v : Value}
    (hcall : scope.registry.isAggregateCall c = true) (hget : row.get? c.key = some v) :
    c.valueOn scope row = .ok v := by
  have hrow : row.aggregate? scope.registry c = some v := by
    rw [Row.aggregate?, if_pos hcall, hget]
  cases c with
  | call name args => rw [Expr.valueOn_call, hrow]
  | callStar name => rw [Expr.valueOn_callStar, hrow]
  | _ => cases hcall

/-- A call on the row of a group has the value of the first call of its text. -/
theorem valueOn_groupedRow {scope : Scope} {calls : List Expr} {bucket : List Row} {row : Row}
    (hrow : groupedRow scope calls bucket = .ok row) {c : Expr} (hc : c ∈ calls)
    (hcall : scope.registry.isAggregateCall c = true) :
    ∃ first, calls.find? (·.key == c.key) = some first ∧
      (∃ v, aggregateOver scope bucket first = .ok v ∧ c.valueOn scope row = .ok v) ∧
      (c.Printable → first.Printable → c.valueOn scope row = aggregateOver scope bucket c) := by
  obtain ⟨first, hfirst⟩ : ∃ first, calls.find? (·.key == c.key) = some first :=
    Option.isSome_iff_exists.mp (List.find?_isSome.mpr ⟨c, hc, by simp⟩)
  have hkey : first.key = c.key := by simpa using List.find?_some hfirst
  have hmem : first ∈ distinctCalls calls := by
    rw [← find?_distinctCalls] at hfirst
    exact List.mem_of_find?_eq_some hfirst
  obtain ⟨v, hv, hget⟩ := groupedRow_get? hrow first hmem
  have hvalue : c.valueOn scope row = .ok v := valueOn_of_aggregate? hcall (hkey ▸ hget)
  refine ⟨first, hfirst, ⟨v, hv, hvalue⟩, fun hprintable hprintable' => ?_⟩
  rw [hvalue, ← hv]
  exact aggregateOver_of_lowered (Expr.lowered_eq_of_key hprintable' hprintable hkey)

/-! ## All calls of a query -/

/-- On the rows of groups every call of a query comes to the value that the first call of its text has over
the rows of the group. That is its own value if both calls are printable, whatever else the query holds. -/
theorem groupRows_calls (scope : Scope) (groupBy : List Expr) (select : List SelectItem) (having : Option Predicate)
    (orderBy : List OrderItem) (rows : List Row) (journal : Journal) :
    let calls := outermostCalls scope.registry select having orderBy
    ∀ shown, ((groupRows scope groupBy select having orderBy rows).start journal).1 = .ok shown →
      ∃ groups, groupsOn scope groupBy rows = .ok groups ∧
        List.Forall₂ (fun bucket row => ∀ c ∈ calls, ∃ first, calls.find? (·.key == c.key) = some first ∧
          (∃ v, aggregateOver scope bucket first = .ok v ∧ c.valueOn scope row = .ok v) ∧
          (c.Printable → first.Printable → c.valueOn scope row = aggregateOver scope bucket c)) groups shown := by
  intro calls shown h
  rw [groupRows_outcome] at h
  obtain ⟨groups, hgroups, hrows⟩ := exists_groups h
  exact ⟨groups, hgroups, hrows.imp fun bucket row hrow c hc => valueOn_groupedRow hrow hc (isAggregateCall_of_mem hc)⟩

/-- `sum(a)` and `SUM(a)` have one text, and each has its own value. -/
theorem groupRows_calls_sums :
    let scope : Scope := ⟨Registry.builtin, []⟩
    let sum (name : String) : Expr := .call name [.column "a"]
    let select : List SelectItem := [⟨.expr (sum "sum"), none⟩, ⟨.expr (sum "SUM"), none⟩]
    let rows := [Row.ofList [("a", Value.ofInt 1)], Row.ofList [("a", Value.ofInt 2)]]
    ∃ row, ((groupRows scope [] select none [] rows).start []).1 = .ok [row] ∧
      (sum "SUM").valueOn scope row = aggregateOver scope rows (sum "SUM") := by
  intro scope sum select rows
  obtain ⟨row, hrow⟩ : ∃ row, ((groupRows scope [] select none [] rows).start []).1 = .ok [row] := ⟨_, rfl⟩
  obtain ⟨groups, hgroups, hall⟩ := groupRows_calls scope [] select none [] rows [] [row] hrow
  obtain rfl : [rows] = groups := Except.ok.inj hgroups
  have hcolumn : (Expr.column "a").Printable := by
    unfold Expr.Printable
    decide
  have hsum : (sum "sum").Printable := ⟨⟨by decide, by decide⟩, hcolumn, trivial⟩
  have hSUM : (sum "SUM").Printable := ⟨⟨by decide, by decide⟩, hcolumn, trivial⟩
  cases hall with
  | cons hcalls _ =>
    have hmem : sum "SUM" ∈ outermostCalls scope.registry select none [] :=
      mem_outermostCalls.mpr (.inl ⟨⟨.expr (sum "SUM"), none⟩, by simp [select], sum "SUM", by simp [Selected.exprs],
        .self rfl⟩)
    obtain ⟨first, hfirst, _, hown⟩ := hcalls (sum "SUM") hmem
    obtain rfl : sum "sum" = first := Option.some.inj hfirst
    exact ⟨row, hrow, hown hSUM hsum⟩

/-- ``SELECT sum(`a + b`), sum(a + b)`` shows the sum of the column `a + b` twice, as both calls read
`sum(a + b)`: on a row with 1, 2 and 10 the second one comes to 10 and not to its own value 3. -/
theorem sum_of_quoted_column :
    let scope : Scope := ⟨Registry.builtin, []⟩
    let added : Expr := .call "sum" [.binary .add (.column "a") (.column "b")]
    let select : List SelectItem := [⟨.expr (.call "sum" [.column "a + b"]), none⟩, ⟨.expr added, none⟩]
    let rows := [Row.ofList [("a", Value.ofInt 1), ("b", Value.ofInt 2), ("a + b", Value.ofInt 10)]]
    ∃ row, ((groupRows scope [] select none [] rows).start []).1 = .ok [row] ∧
      added.valueOn scope row = .ok (Value.ofInt 10) ∧
      aggregateOver scope rows added = .ok (Value.ofInt 3) := by
  exact ⟨_, rfl, rfl, rfl⟩

end JsonTables
