/-
  JsonTables.Proofs.Expr.Unknown — calls of functions that are not registered.

  Which of these calls are evaluated follows from the values alone: an aggregate call may have its value from the
  row, the right side of `AND` and `OR` may not matter, and nothing is evaluated behind a fault. The arguments of
  such a call are never evaluated. The journal knows the calls only by their names, so a computation is known by
  the names that it calls on the way, as `Notes` says.

  Proved:
  - `Expr.notes_eval`, `Predicate.notes_test`: the calls on the way are those that the values lead to.
  - `foldl_reportTo`: of every name the journal keeps the first spelling.
  - `Request.journal_of_requests`: so a journal of many requests names each unknown function once.
-/

import JsonTables.Proofs.Evaluation

namespace JsonTables

/-! ## Names without regard to case -/

/-- Of names that differ in case only the first. -/
def firstSpellings : List String → List String
  | [] => []
  | name :: rest => name :: (firstSpellings rest).filter fun other => Text.lower name ≠ Text.lower other

namespace Evaluation

variable {α β : Type}

/-- The journal behind a call of an unknown function. -/
def reportTo (journal : Journal) (name : String) : Journal :=
  if reported journal name then journal else journal ++ [.unknownFunction name]

theorem reported_append (journal : Journal) (name other : String) :
    reported (journal ++ [.unknownFunction name]) other =
      (reported journal other || Text.lower name == Text.lower other) := by
  simp [reported]

/-- The journal keeps the first spelling of each name that it does not have. -/
theorem foldl_reportTo (journal : Journal) (names : List String) :
    names.foldl reportTo journal =
      journal ++ ((firstSpellings names).filter fun name => !reported journal name).map .unknownFunction := by
  induction names generalizing journal with
  | nil => simp [firstSpellings]
  | cons name rest ih =>
    rw [List.foldl_cons, ih, firstSpellings]
    by_cases hname : reported journal name = true
    · -- What is called like `name` is in the journal, so it is left out on both sides.
      have hsame : ∀ other, (!reported journal other && decide (Text.lower name ≠ Text.lower other)) =
          !reported journal other := by
        intro other
        by_cases hlower : Text.lower name = Text.lower other
        · have hother : reported journal other = true := by
            simpa [reported, hlower] using hname
          simp [hother]
        · simp [hlower]
      have hskip : reportTo journal name = journal := if_pos hname
      rw [hskip, List.filter_cons, hname, List.filter_filter]
      simp only [hsame]
      rfl
    · have hnew : reportTo journal name = journal ++ [.unknownFunction name] := if_neg hname
      have hboth : ∀ other, (!reported (journal ++ [.unknownFunction name]) other) =
          (!reported journal other && decide (Text.lower name ≠ Text.lower other)) := by
        intro other
        rw [reported_append, Bool.not_or]
        by_cases hlower : Text.lower name = Text.lower other <;> simp [hlower]
      rw [hnew, List.filter_cons_of_pos (by simpa using hname), List.filter_filter, List.map_cons, List.append_assoc]
      simp only [hboth]
      rfl

/-! ## Computations and the calls on their way -/

/-- What follows on a result, and nothing on a fault. -/
def onward (result : Except Fault α) (names : α → List String) : List String :=
  match result with
  | .ok a => names a
  | .error _ => []

/-- What all names have, also those that follow. -/
theorem forall_mem_onward {P : String → Prop} {names : List String} {result : Except Fault α} {more : α → List String}
    (hnames : ∀ name ∈ names, P name) (hmore : ∀ a, ∀ name ∈ more a, P name) :
    ∀ name ∈ names ++ onward result more, P name := by
  refine List.forall_mem_append.mpr ⟨hnames, ?_⟩
  cases result with
  | ok a => exact hmore a
  | error fault => exact List.forall_mem_nil P

/-- The computation comes to one outcome and calls these unknown functions on the way, from every journal. -/
structure Notes (x : Evaluation α) (names : List String) : Prop where
  steady : Steady x
  journal (journal : Journal) : (x.start journal).2 = names.foldl reportTo journal

theorem notes_pure (a : α) : Notes (pure a : Evaluation α) [] := ⟨steady_pure a, fun _ => rfl⟩

theorem notes_lift (e : Except Fault α) : Notes (liftM e : Evaluation α) [] := ⟨steady_lift e, fun _ => rfl⟩

theorem notes_reportUnknown (name : String) : Notes (reportUnknown name) [name] :=
  ⟨steady_reportUnknown name, fun _ => rfl⟩

theorem Notes.bind {x : Evaluation α} {f : α → Evaluation β} {names : List String} {more : α → List String}
    (hx : Notes x names) (hf : ∀ a, Notes (f a) (more a)) : Notes (x >>= f) (names ++ onward x.outcome more) := by
  refine ⟨hx.steady.bind fun a => (hf a).steady, fun journal => ?_⟩
  have hjournal := hx.journal journal
  have houtcome := hx.steady journal
  rw [start_bind, List.foldl_append, ← hjournal, ← houtcome]
  rcases x.start journal with ⟨fault | a, noted⟩
  · rfl
  · exact (hf a).journal noted

/-- What follows without a call. -/
theorem Notes.bind_pure {x : Evaluation α} {f : α → Evaluation β} {names : List String} (hx : Notes x names)
    (hf : ∀ a, Notes (f a) []) : Notes (x >>= f) names := by
  have hboth := hx.bind hf
  have hnone : onward x.outcome (fun _ => []) = [] := by
    cases x.outcome <;> rfl
  rwa [hnone, List.append_nil] at hboth

end Evaluation

open Evaluation

/-! ## Expressions -/

namespace Expr

mutual

/-- The unknown functions that are called while an expression is evaluated, by their names, in order. -/
def unknownCalls (scope : Scope) (row : Row) : Expr → List String
  | literal _ => []
  | column _ => []
  | call name args =>
    match row.aggregate? scope.registry (call name args), scope.registry.lookup? name with
    | some _, _ => []
    | none, none => [name]
    | none, some _ => unknownCallsAll scope row args
  | callStar name =>
    match row.aggregate? scope.registry (callStar name), scope.registry.lookup? name with
    | none, none => [name]
    | _, _ => []
  | binary _ left right =>
    unknownCalls scope row left ++ onward (left.valueOn scope row) fun _ => unknownCalls scope row right
  | negate operand => unknownCalls scope row operand

def unknownCallsAll (scope : Scope) (row : Row) : List Expr → List String
  | [] => []
  | e :: rest => unknownCalls scope row e ++ onward (e.valueOn scope row) fun _ => unknownCallsAll scope row rest

end

variable {scope : Scope} {row : Row}

mutual

theorem notes_eval : ∀ e : Expr, Notes (e.eval scope row) (e.unknownCalls scope row)
  | .literal l => notes_pure _
  | .column name => notes_pure _
  | .call name args => by
    unfold eval unknownCalls
    cases row.aggregate? scope.registry (.call name args) with
    | some v => exact notes_pure v
    | none =>
      cases scope.registry.lookup? name with
      | none => exact (notes_reportUnknown name).bind_pure fun _ => notes_pure _
      | some f => exact (notes_evalAll args).bind_pure fun _ => notes_lift _
  | .callStar name => by
    unfold eval unknownCalls
    cases row.aggregate? scope.registry (.callStar name) with
    | some v => exact notes_pure v
    | none =>
      cases scope.registry.lookup? name with
      | none => exact (notes_reportUnknown name).bind_pure fun _ => notes_pure _
      | some f => exact notes_lift _
  | .binary op left right => by
    unfold eval unknownCalls
    exact (notes_eval left).bind fun _ => (notes_eval right).bind_pure fun _ => notes_lift _
  | .negate operand => by
    unfold eval unknownCalls
    exact (notes_eval operand).bind_pure fun _ => notes_lift _

theorem notes_evalAll : ∀ es : List Expr, Notes (evalAll scope row es) (unknownCallsAll scope row es)
  | [] => notes_pure _
  | e :: rest => by
    unfold evalAll unknownCallsAll
    exact (notes_eval e).bind fun _ => (notes_evalAll rest).bind_pure fun _ => notes_pure _

end

/-- No aggregate function is unknown. -/
theorem aggregate?_of_unknown {name : String} (h : scope.registry.lookup? name = none) (args : List Expr) :
    row.aggregate? scope.registry (.call name args) = none ∧ row.aggregate? scope.registry (.callStar name) = none := by
  simp [Row.aggregate?, Registry.isAggregateCall, Registry.isAggregate, h]

/-- A call of an unknown function is null, whatever its arguments, and all that happens is that its name is noted. -/
theorem eval_unknown {name : String} (h : scope.registry.lookup? name = none) (args : List Expr) (journal : Journal) :
    ((call name args).eval scope row).start journal = (.ok .null, reportTo journal name) ∧
      ((callStar name).eval scope row).start journal = (.ok .null, reportTo journal name) := by
  obtain ⟨hcall, hstar⟩ := @aggregate?_of_unknown scope row name h args
  constructor
  · unfold eval
    rw [hcall, h]
    rfl
  · unfold eval
    rw [hstar, h]
    rfl

mutual

/-- Only calls of unknown functions are noted. -/
theorem unknown_of_mem : ∀ e : Expr, ∀ name ∈ e.unknownCalls scope row, scope.registry.lookup? name = none
  | .literal l => List.forall_mem_nil _
  | .column n => List.forall_mem_nil _
  | .call n args => by
    unfold unknownCalls
    split
    · exact List.forall_mem_nil _
    · rename_i hlookup
      exact List.forall_mem_singleton.mpr hlookup
    · exact unknown_of_mem_all args
  | .callStar n => by
    unfold unknownCalls
    split
    · rename_i hlookup
      exact List.forall_mem_singleton.mpr hlookup
    · exact List.forall_mem_nil _
  | .binary op left right => by
    unfold unknownCalls
    exact forall_mem_onward (unknown_of_mem left) fun _ => unknown_of_mem right
  | .negate operand => by
    unfold unknownCalls
    exact unknown_of_mem operand

theorem unknown_of_mem_all : ∀ es : List Expr, ∀ name ∈ unknownCallsAll scope row es, scope.registry.lookup? name = none
  | [] => List.forall_mem_nil _
  | e :: rest => by
    unfold unknownCallsAll
    exact forall_mem_onward (unknown_of_mem e) fun _ => unknown_of_mem_all rest

end

end Expr

/-! ## Conditions -/

namespace Predicate

/-- Whether a condition holds on a row, or the fault of its arithmetic. -/
def holdsOn (scope : Scope) (row : Row) (p : Predicate) : Except Fault Bool := (p.test scope row).outcome

/-- The unknown functions that are called while a condition is tested, by their names, in order. -/
def unknownCalls (scope : Scope) (row : Row) : Predicate → List String
  | truth e => e.unknownCalls scope row
  | compare _ left right =>
    left.unknownCalls scope row ++ onward (left.valueOn scope row) fun _ => right.unknownCalls scope row
  | and left right =>
    unknownCalls scope row left ++ onward (left.holdsOn scope row) fun holds =>
      if holds then unknownCalls scope row right else []
  | or left right =>
    unknownCalls scope row left ++ onward (left.holdsOn scope row) fun holds =>
      if holds then [] else unknownCalls scope row right

variable {scope : Scope} {row : Row}

theorem notes_test (p : Predicate) : Notes (p.test scope row) (p.unknownCalls scope row) := by
  induction p with
  | truth e => exact (Expr.notes_eval e).bind_pure fun _ => notes_pure _
  | compare op left right =>
    exact (Expr.notes_eval left).bind fun _ => (Expr.notes_eval right).bind_pure fun _ => notes_pure _
  | and left right ihl ihr =>
    refine ihl.bind fun holds => ?_
    cases holds with
    | true => exact ihr
    | false => exact notes_pure _
  | or left right ihl ihr =>
    refine ihl.bind fun holds => ?_
    cases holds with
    | true => exact notes_pure _
    | false => exact ihr

theorem unknown_of_mem (p : Predicate) : ∀ name ∈ p.unknownCalls scope row, scope.registry.lookup? name = none := by
  induction p with
  | truth e => exact Expr.unknown_of_mem e
  | compare op left right => exact forall_mem_onward (Expr.unknown_of_mem left) fun _ => Expr.unknown_of_mem right
  | and left right ihl ihr =>
    refine forall_mem_onward ihl fun holds => ?_
    cases holds with
    | true => exact ihr
    | false => exact List.forall_mem_nil _
  | or left right ihl ihr =>
    refine forall_mem_onward ihl fun holds => ?_
    cases holds with
    | true => exact List.forall_mem_nil _
    | false => exact ihr

end Predicate

/-! ## One journal for many requests -/

/-- What an evaluator is asked for, on a row and with names bound before its columns. -/
inductive Request where
  | evaluate (e : Expr) (row : Row) (bindings : Entries Value)
  | test (p : Predicate) (row : Row) (bindings : Entries Value)

namespace Request

variable (registry : Registry)

/-- The journal of an evaluator behind a request, answered or ended by a fault. -/
def journalAfter (journal : Journal) : Request → Journal
  | evaluate e row bindings => ((e.eval ⟨registry, bindings⟩ row).start journal).2
  | test p row bindings => ((p.test ⟨registry, bindings⟩ row).start journal).2

/-- The unknown functions that are called for a request, by their names, in order. -/
def unknownCalls : Request → List String
  | evaluate e row bindings => e.unknownCalls ⟨registry, bindings⟩ row
  | test p row bindings => p.unknownCalls ⟨registry, bindings⟩ row

variable {registry}

theorem journalAfter_eq (journal : Journal) (r : Request) :
    r.journalAfter registry journal = (r.unknownCalls registry).foldl reportTo journal := by
  cases r with
  | evaluate e row bindings => exact (Expr.notes_eval e).journal journal
  | test p row bindings => exact p.notes_test.journal journal

theorem foldl_journalAfter (journal : Journal) (requests : List Request) :
    requests.foldl (journalAfter registry) journal =
      (requests.flatMap (unknownCalls registry)).foldl reportTo journal := by
  induction requests generalizing journal with
  | nil => rfl
  | cons r rest ih => rw [List.foldl_cons, ih, journalAfter_eq, List.flatMap_cons, List.foldl_append]

/-- An evaluator that starts with an empty journal has noted, behind any requests, the first spellings of the unknown
functions called for them. -/
theorem journal_of_requests (requests : List Request) :
    requests.foldl (journalAfter registry) [] =
      (firstSpellings (requests.flatMap (unknownCalls registry))).map .unknownFunction := by
  rw [foldl_journalAfter, foldl_reportTo]
  simp [reported]

end Request

end JsonTables
