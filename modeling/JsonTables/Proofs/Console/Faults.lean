/-
  JsonTables.Proofs.Console.Faults — when a statement ends in a fault and not in an answer.

  What the program catches is that a statement is refused. A fault of arithmetic goes through: it ends a session,
  and a script too. It always comes from an operation that the statement contains: an operator outside its range, or a
  call of one of the five functions that do not catch it. An integer of too many digits is another thing that is not
  caught, and no fault of arithmetic.

  Proved:
  - `answer_failed`: every fault of a statement comes from such an operation, on values that its run can meet.
  - `remainder_ends_session`: the remainder of an infinite cell is such a fault.
-/

import JsonTables.Console.Shell
import JsonTables.Proofs.Query.Faults
import JsonTables.Proofs.Statement.RoundTrip

namespace JsonTables.Console

open Statement

/-- An operation of the plan that has no result on some values that its run can meet: an operator on numbers
outside its range, or a function that lets the fault of its arithmetic through. -/
def Culprit (plan : Plan) (tables : SourceTables) (fault : Fault) : Prop :=
  (∃ op left right a b m n, plan.Holds (.binary op left right) ∧ plan.Meets Registry.builtin tables a ∧
    plan.Meets Registry.builtin tables b ∧ a.number? = some m ∧ b.number? = some n ∧ op.Fails m n ∧
    op.apply m n = .error fault) ∨
  ∃ name args f values, plan.Holds (.call name args) ∧ Text.lower name ∈ Function.fallible ∧
    Registry.builtin.lookup? name = some f ∧ (∀ v ∈ values, plan.Meets Registry.builtin tables v) ∧
    f.run values = .error fault

theorem mem_builtins {name : String} {f : Function} (h : Registry.builtin.lookup? name = some f) :
    (Text.lower name, f) ∈ Function.builtins := by
  obtain ⟨⟨key, g⟩, hfound, rfl⟩ := Option.map_eq_some_iff.mp h
  have hkey : key = Text.lower name := by simpa using List.find?_some hfound
  exact hkey ▸ List.mem_of_find?_eq_some hfound

/-- With the functions that every query can use, only operators and calls of five functions explain a fault of
arithmetic. -/
theorem culprit_of_explains {plan : Plan} {tables : SourceTables} {fault : Fault}
    (h : plan.Explains Registry.builtin tables fault) (hdigits : fault ≠ .digits) : Culprit plan tables fault := by
  cases h with
  | @operator op left right a b _ hholds ha hb hfault =>
    obtain ⟨m, n, hm, hn, happly, hfails⟩ := Operator.onValues_fails hfault hdigits
    exact .inl ⟨op, left, right, a, b, m, n, hholds, ha, hb, hm, hn, hfails, happly⟩
  | @negated _ v _ _ _ hfault => exact absurd (v.digitsOnly_negated fault hfault) hdigits
  | @call name args f values _ hholds hf hvalues hfault =>
    refine .inr ⟨name, args, f, values, hholds, ?_, hf, hvalues, hfault⟩
    by_contra hname
    exact hdigits (Function.builtins_total _ (mem_builtins hf) hname values fault hfault)
  | @callStar name f n _ hholds hf hn hfault =>
    exact absurd (Function.builtins_total_on_star _ (mem_builtins hf) n hn fault hfault) hdigits

/-! ## An infinite cell -/

/-- One table with one cell, the number that `1e400` is read as. -/
def infiniteCell : Dataset := ⟨[("t", .list [.map [("a", .number (.float (.infinity false)))]])]⟩

/-- The remainder of a cell, written as a call. -/
def remainderOfCell : Expr := .call "mod" [.column "a", .literal (.number (.int 2))]

theorem parse_remainder : parse "SELECT mod(a, 2) FROM t" =
    .ok { Plan.blank with select := [⟨.expr remainderOfCell, none⟩], table := "t" } := by
  have hcolumn : (Expr.column "a").Printable := by
    unfold Expr.Printable
    decide
  have hprintable : (Selected.expr remainderOfCell).Printable :=
    ⟨⟨by decide, by decide⟩, hcolumn, trivial, trivial⟩
  have hsql : selecting (.expr remainderOfCell) = "SELECT mod(a, 2) FROM t" := by decide +kernel
  have hshort : Short (.expr remainderOfCell) := by
    have hintegers : (Selected.expr remainderOfCell).integers = [2] := rfl
    unfold Short
    rw [hintegers]
    decide
  exact hsql ▸ parse_selecting hprintable hshort

theorem answer_remainder : ∃ notes, answer infiniteCell "SELECT mod(a, 2) FROM t" = (notes, .failed .domain) := by
  obtain ⟨journal, hrun⟩ : ∃ journal,
      Plan.execute Registry.builtin { Plan.blank with select := [⟨.expr remainderOfCell, none⟩], table := "t" } infiniteCell =
        .ok (.error .domain, journal) := ⟨_, rfl⟩
  unfold answer
  rw [parse_remainder]
  dsimp only
  rw [hrun]
  exact ⟨_, rfl⟩

/-! ## Statements that fail -/

/-- A statement on which the arithmetic of the program fails is one that it accepts, on tables that are there, and there
is an operation in it that fails. -/
theorem answer_failed (dataset : Dataset) (sql : String) {fault : Fault} (h : (answer dataset sql).2 = .failed fault) :
    ∃ plan tables, parse sql = .ok plan ∧ plan.tables Registry.builtin dataset = .ok tables ∧
      Culprit plan tables fault := by
  unfold answer at h
  cases hparse : parse sql with
  | error e =>
    rw [hparse] at h
    cases e <;> cases h
  | ok plan =>
    rw [hparse] at h
    dsimp only at h
    cases htables : plan.tables Registry.builtin dataset with
    | error e =>
      have hrefused : plan.execute Registry.builtin dataset = .error e := by rw [Plan.execute, htables]; rfl
      rw [hrefused] at h
      cases h
    | ok tables =>
      have hrun : plan.execute Registry.builtin dataset = .ok ((plan.evaluate Registry.builtin tables).start []) := by
        rw [Plan.execute, htables]
        rfl
      have hends := @evaluate_ends Registry.builtin plan tables []
      rw [hrun] at h
      rcases hstart : (plan.evaluate Registry.builtin tables).start [] with ⟨fault' | result, journal⟩
      · rw [hstart] at h hends
        have hdigits : fault' ≠ .digits := by
          rintro rfl
          cases h
        obtain rfl : fault' = fault := by
          cases fault' <;> cases h <;> rfl
        exact ⟨plan, tables, rfl, htables, culprit_of_explains hends hdigits⟩
      · rw [hstart] at h
        dsimp only at h
        split at h <;> cases h

/-- The remainder of an infinite cell: the call of `mod` is to blame. -/
theorem answer_failed_remainder :
    (answer infiniteCell "SELECT mod(a, 2) FROM t").2 = .failed .domain ∧
    ∃ plan tables, parse "SELECT mod(a, 2) FROM t" = .ok plan ∧
      plan.tables Registry.builtin infiniteCell = .ok tables ∧ Culprit plan tables .domain := by
  obtain ⟨notes, hanswer⟩ := answer_remainder
  have hfailed : (answer infiniteCell "SELECT mod(a, 2) FROM t").2 = .failed .domain := by rw [hanswer]
  exact ⟨hfailed, answer_failed infiniteCell _ hfailed⟩

/-- It is not caught: the statement is neither answered nor refused, and it ends the session. -/
theorem remainder_ends_session :
    (answer infiniteCell "SELECT mod(a, 2) FROM t").2 = .failed .domain ∧
    (Shell.query ⟨some infiniteCell, 5, .command⟩ "SELECT mod(a, 2) FROM t").2 = .failed .domain := by
  obtain ⟨notes, hanswer⟩ := answer_remainder
  refine ⟨by rw [hanswer], ?_⟩
  unfold Shell.query
  dsimp only
  rw [hanswer]

end JsonTables.Console
