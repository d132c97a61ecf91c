/-
  JsonTables.Proofs.Expr.Keys — what it means that two expressions have one key.

  The key of an expression is its text with the names of functions in lower case. No two printable expressions
  are printed alike, so two of one key are the same up to the case of these names,
  and then they have the same value on every row. Beyond the printable ones this fails: the column of the
  name `a + b` is printed like the sum of `a` and `b`.

  Proved:
  - `Expr.key_eq`: the key is the text of the expression in lower case.
  - `Expr.lowered_eq_of_key`: printable expressions of one key are one expression in lower case.
  - `Expr.valueOn_of_lowered`: expressions that are one in lower case have one value.
-/

import JsonTables.Proofs.Evaluation
import JsonTables.Proofs.Statement.RoundTrip
import JsonTables.Proofs.Text.Lower

namespace JsonTables

/-! ## Names in lower case -/

namespace Token

theorem toNat_lt_of_isNameChar {c : Char} (h : isNameChar c = true) : c.toNat < 0x80 := by
  unfold isNameChar Char.isAlphanum at h
  simp only [Bool.or_eq_true, decide_eq_true_eq] at h
  rcases h with (h | h) | rfl
  · exact (isDigit_of_isAlpha h).1
  · simp only [Char.isDigit, Bool.and_eq_true, decide_eq_true_eq, UInt32.le_iff_toNat_le] at h
    exact Nat.lt_of_le_of_lt h.2 (by decide)
  · decide

theorem isNameChar_toLower {c : Char} (h : isNameChar c = true) : isNameChar c.toLower = true := by
  by_cases hupper : c.isUpper = true
  · have halpha : c.isAlpha = true := by simp [Char.isAlpha, hupper]
    simp [isNameChar, Char.isAlphanum, Char.isAlpha_toLower_eq_isAlpha, halpha]
  · rwa [Char.toLower_eq_of_not_isUpper hupper]

theorem startsName_toLower {c : Char} (h : StartsName c) : StartsName c.toLower := by
  by_cases hupper : c.isUpper = true
  · have halpha : c.isAlpha = true := by simp [Char.isAlpha, hupper]
    exact .inr (.inl (by rwa [Char.isAlpha_toLower_eq_isAlpha]))
  · rwa [Char.toLower_eq_of_not_isUpper hupper]

theorem IsIdentifier.toList_lower {name : String} (h : IsIdentifier name) :
    (Text.lower name).toList = name.toList.map Char.toLower := by
  obtain ⟨c, cs, hname, hc, hcs⟩ := h.exists_cons
  have hascii : ∀ d ∈ name.toList, d.toNat < 0x80 := by
    rw [hname]
    refine List.forall_mem_cons.mpr ⟨?_, fun d hd => toNat_lt_of_isNameChar (hcs d hd)⟩
    rcases isNameChar_of_startsName hc with rfl | hc
    · decide
    · exact toNat_lt_of_isNameChar hc
  rw [Text.lower, String.toList_ofList, Text.lowerFrom_of_ascii hascii]

theorem IsIdentifier.lower {name : String} (h : IsIdentifier name) : IsIdentifier (Text.lower name) := by
  obtain ⟨c, cs, hname, hc, hcs⟩ := h.exists_cons
  unfold IsIdentifier
  rw [h.toList_lower, hname]
  refine ⟨startsName_toLower hc, List.all_eq_true.mpr fun d hd => ?_⟩
  obtain ⟨b, hb, rfl⟩ := List.mem_map.mp hd
  exact isNameChar_toLower (hcs b hb)

theorem IsIdentifier.lower_lower {name : String} (h : IsIdentifier name) :
    Text.lower (Text.lower name) = Text.lower name := by
  rw [← String.toList_inj, h.lower.toList_lower, h.toList_lower, List.map_map]
  congr 1
  funext c
  exact Char.toLower_toLower_eq_toLower c

end Token

open Token

theorem IsFunctionName.lower {name : String} (h : IsFunctionName name) : IsFunctionName (Text.lower name) := by
  refine ⟨h.1.lower, ?_⟩
  unfold Keyword.ofName?
  rw [h.1.lower_lower]
  exact h.2

/-! ## Expressions in lower case -/

namespace Expr

mutual

/-- The expression with the names of its functions in lower case. -/
def lowered : Expr → Expr
  | literal l => literal l
  | column name => column name
  | call name args => call (Text.lower name) (loweredAll args)
  | callStar name => callStar (Text.lower name)
  | binary op left right => binary op left.lowered right.lowered
  | negate operand => negate operand.lowered

def loweredAll : List Expr → List Expr
  | [] => []
  | e :: rest => e.lowered :: loweredAll rest

end

theorem isBinary_lowered (e : Expr) : e.lowered.isBinary = e.isBinary := by
  cases e <;> simp [lowered, isBinary]

mutual

theorem key_eq : ∀ e : Expr, e.key = e.lowered.render
  | literal l => by rw [lowered]; rfl
  | column name => by rw [lowered]; rfl
  | call name args => by
    simp only [key, render, lowered, renderWith, renderAll_lowered args, id]
  | callStar name => by
    simp only [key, render, lowered, renderWith, id]
  | binary op left right => by
    have hl := key_eq left
    have hr := key_eq right
    simp only [key, render] at hl hr
    simp only [key, render, lowered, renderWith, guarded, isBinary_lowered, hl, hr]
  | negate operand => by
    have ho := key_eq operand
    simp only [key, render] at ho
    simp only [key, render, lowered, renderWith, guarded, isBinary_lowered, ho]

theorem renderAll_lowered : ∀ es : List Expr, renderAll Text.lower es = renderAll id (loweredAll es)
  | [] => rfl
  | e :: rest => by
    have he := key_eq e
    simp only [key, render] at he
    simp only [renderAll, loweredAll, he, renderAll_lowered rest]

end

theorem TakesMinus.lowered {e : Expr} (h : e.TakesMinus) : e.lowered.TakesMinus := by
  cases e <;> simp_all [Expr.lowered, TakesMinus]

mutual

theorem Printable.lowered : ∀ {e : Expr}, e.Printable → e.lowered.Printable
  | literal _, h => h
  | column _, h => h
  | call _ _, h => ⟨h.1.lower, h.2.lowered⟩
  | callStar _, h => IsFunctionName.lower h
  | binary _ _ _, h => ⟨h.1.lowered, h.2.lowered⟩
  | negate _, h => ⟨h.1.lowered, h.2.lowered⟩

theorem AllPrintable.lowered : ∀ {es : List Expr}, AllPrintable es → AllPrintable (loweredAll es)
  | [], h => h
  | _ :: _, h => ⟨h.1.lowered, h.2.lowered⟩

end

/-- Printable expressions of one key are one expression in lower case, since no two are printed alike. -/
theorem lowered_eq_of_key {e e' : Expr} (h : e.Printable) (h' : e'.Printable) (hkey : e.key = e'.key) :
    e.lowered = e'.lowered := by
  rw [key_eq, key_eq] at hkey
  have heq : Selected.expr e.lowered = .expr e'.lowered := Statement.selecting_injective h.lowered h'.lowered hkey
  exact Selected.expr.inj heq

/-! ## Values -/

section Values

open Evaluation

variable (scope : Scope) (row : Row)

/-- The values of expressions on a row, or the first fault on the way. -/
def valuesOn (es : List Expr) : Except Fault (List Value) := (evalAll scope row es).outcome

theorem valuesOn_cons (e : Expr) (es : List Expr) :
    valuesOn scope row (e :: es) = do return (← e.valueOn scope row) :: (← valuesOn scope row es) := by
  rw [valuesOn, evalAll, outcome_bind (steady_eval scope row e) fun _ => (steady_evalAll scope row es).bind fun _ => steady_pure _]
  congr 1
  funext v
  rw [outcome_bind (steady_evalAll scope row es) fun _ => steady_pure _]
  rfl

theorem valueOn_call (name : String) (args : List Expr) :
    (call name args).valueOn scope row = match row.aggregate? scope.registry (call name args) with
      | some v => .ok v
      | none => match scope.registry.lookup? name with
        | none => .ok .null
        | some f => valuesOn scope row args >>= f.run := by
  unfold valueOn eval
  cases row.aggregate? scope.registry (call name args) with
  | some v => rfl
  | none =>
    cases scope.registry.lookup? name with
    | none => rfl
    | some f => exact outcome_bind (steady_evalAll scope row args) fun _ => steady_lift _

theorem valueOn_callStar (name : String) :
    (callStar name).valueOn scope row = match row.aggregate? scope.registry (callStar name) with
      | some v => .ok v
      | none => match scope.registry.lookup? name with
        | none => .ok .null
        | some f => f.run [Value.ofInt 1] := by
  unfold valueOn eval
  cases row.aggregate? scope.registry (callStar name) with
  | some v => rfl
  | none => cases scope.registry.lookup? name <;> rfl

theorem valueOn_binary (op : Operator) (left right : Expr) :
    (binary op left right).valueOn scope row =
      left.valueOn scope row >>= fun a => right.valueOn scope row >>= op.onValues a := by
  unfold valueOn
  rw [eval, outcome_bind (steady_eval scope row left) fun _ => (steady_eval scope row right).bind fun _ => steady_lift _]
  congr 1
  funext a
  rw [outcome_bind (steady_eval scope row right) fun _ => steady_lift _]
  rfl

theorem valueOn_negate (operand : Expr) :
    (negate operand).valueOn scope row = operand.valueOn scope row >>= Value.negated := by
  unfold valueOn
  rw [eval, outcome_bind (steady_eval scope row operand) fun _ => steady_lift _]
  rfl

variable {scope row}

theorem lookup?_of_lower {name name' : String} (h : Text.lower name = Text.lower name') (registry : Registry) :
    registry.lookup? name = registry.lookup? name' := by
  unfold Registry.lookup?
  rw [h]

theorem length_loweredAll (es : List Expr) : (loweredAll es).length = es.length := by
  induction es with
  | nil => rfl
  | cons e es ih => rw [loweredAll, List.length_cons, List.length_cons, ih]

theorem isAggregateCall_of_lowered {e e' : Expr} (h : e.lowered = e'.lowered) (registry : Registry) :
    registry.isAggregateCall e = registry.isAggregateCall e' := by
  have hlookup : ∀ {name name' : String}, Text.lower name = Text.lower name' →
      registry.isAggregate name = registry.isAggregate name' := by
    intro name name' hname
    unfold Registry.isAggregate
    rw [lookup?_of_lower hname]
  cases e <;> cases e' <;> simp only [lowered, reduceCtorEq, call.injEq, callStar.injEq] at h <;> try rfl
  · have hlen := congrArg List.length h.2
    rw [length_loweredAll, length_loweredAll] at hlen
    simp only [Registry.isAggregateCall, hlen, hlookup h.1]
  · simp only [Registry.isAggregateCall, hlookup h]

theorem aggregate?_of_lowered {e e' : Expr} (h : e.lowered = e'.lowered) (registry : Registry) :
    row.aggregate? registry e = row.aggregate? registry e' := by
  unfold Row.aggregate?
  rw [isAggregateCall_of_lowered h, key_eq, key_eq, h]

mutual

/-- The case of the names of functions does not matter to the value of an expression. -/
theorem valueOn_of_lowered : ∀ {e e' : Expr}, e.lowered = e'.lowered → e.valueOn scope row = e'.valueOn scope row
  | literal l, e', h => by
    cases e' <;> simp only [lowered, reduceCtorEq] at h
    rw [h]
  | column name, e', h => by
    cases e' <;> simp only [lowered, reduceCtorEq] at h
    rw [h]
  | call name args, e', h => by
    have hrow : row.aggregate? scope.registry (call name args) = row.aggregate? scope.registry e' :=
      aggregate?_of_lowered h scope.registry
    cases e' <;> simp only [lowered, reduceCtorEq, call.injEq] at h
    rw [valueOn_call, valueOn_call, hrow, lookup?_of_lower h.1, valuesOn_of_lowered h.2]
  | callStar name, e', h => by
    have hrow : row.aggregate? scope.registry (callStar name) = row.aggregate? scope.registry e' :=
      aggregate?_of_lowered h scope.registry
    cases e' <;> simp only [lowered, reduceCtorEq, callStar.injEq] at h
    rw [valueOn_callStar, valueOn_callStar, hrow, lookup?_of_lower h]
  | binary op left right, e', h => by
    cases e' <;> simp only [lowered, reduceCtorEq, binary.injEq] at h
    rw [valueOn_binary, valueOn_binary, h.1, valueOn_of_lowered h.2.1, valueOn_of_lowered h.2.2]
  | negate operand, e', h => by
    cases e' <;> simp only [lowered, reduceCtorEq, negate.injEq] at h
    rw [valueOn_negate, valueOn_negate, valueOn_of_lowered h]

theorem valuesOn_of_lowered : ∀ {es es' : List Expr}, loweredAll es = loweredAll es' →
    valuesOn scope row es = valuesOn scope row es'
  | [], es', h => by
    cases es' with
    | nil => rfl
    | cons e' es' => cases h
  | e :: es, es', h => by
    cases es' with
    | nil => cases h
    | cons e' es' =>
      obtain ⟨he, hes⟩ := List.cons.inj h
      rw [valuesOn_cons, valuesOn_cons, valueOn_of_lowered he, valuesOn_of_lowered hes]

end

end Values

end Expr

end JsonTables
