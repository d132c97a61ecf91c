/-
  JsonTables.Proofs.Query.Warnings — the warnings of a result.

  A query has one journal from its first stage to its last. Expressions and conditions note unknown functions
  there, each once, and the stages around them only add notes of other kinds; so whatever the order of the stages
  and however often an expression is evaluated, no function is named twice.

  Proved:
  - `Keeps.bind`, `Keeps.mapM`, `Keeps.foldlM`, `Keeps.filterM`: what is put together keeps what its parts keep.
  - `keeps_workingRows`, `keeps_projectedRows`: the stages of a plan name no function twice.
  - `Plan.execute_warnings`: so a result has one warning for an unknown function at most.
  - `unknown_functions_reported_once`: with what the calls come to, and what many requests leave in a journal.
-/

import JsonTables.Proofs.Expr.Unknown
import JsonTables.Proofs.Query.Results

namespace JsonTables

open Evaluation

/-! ## The unknown functions in a journal -/

/-- The unknown function that a note is about. -/
def Note.unknown? : Note → Option String
  | unknownFunction name => some name
  | _ => none

/-- What a result says of an unknown function. -/
def unknownWarning (name : String) : String := s!"UnknownFunction: Unknown function '{name}'"

theorem Note.warning?_eq (n : Note) : n.warning? = n.unknown?.map unknownWarning := by
  cases n with
  | unknownFunction name =>
    have hwords : "UnknownFunction: Unknown function '" = "UnknownFunction: " ++ "Unknown function '" := by decide
    have hmessage : (Note.unknownFunction name).message = s!"Unknown function '{name}'" := rfl
    show some s!"UnknownFunction: {(Note.unknownFunction name).message}" =
      some s!"UnknownFunction: Unknown function '{name}'"
    rw [hmessage]
    simp only [toString, String.append_assoc, hwords]
  | _ => rfl

namespace Journal

/-- The unknown functions that a journal names. -/
def unknownNames (j : Journal) : List String := j.filterMap Note.unknown?

theorem warnings_eq (j : Journal) : j.warnings = j.unknownNames.map unknownWarning := by
  rw [warnings, unknownNames, List.map_filterMap]
  exact List.filterMap_congr fun n _ => n.warning?_eq

theorem reported_iff {j : Journal} {name : String} :
    reported j name = true ↔ ∃ other ∈ j.unknownNames, Text.lower other = Text.lower name := by
  constructor
  · intro h
    obtain ⟨n, hn, hname⟩ := List.any_eq_true.mp h
    cases n with
    | unknownFunction other => exact ⟨other, List.mem_filterMap.mpr ⟨_, hn, rfl⟩, by simpa using hname⟩
    | _ => cases hname
  · intro h
    obtain ⟨other, hother, hlower⟩ := h
    obtain ⟨n, hn, hname⟩ := List.mem_filterMap.mp hother
    cases n with
    | unknownFunction name' =>
      obtain rfl := Option.some.inj hname
      exact List.any_eq_true.mpr ⟨_, hn, by simpa using hlower⟩
    | _ => cases hname

/-- The functions that the journal names are unknown, and no two are the same. -/
structure OnceEach (registry : Registry) (j : Journal) : Prop where
  distinct : j.unknownNames.Pairwise fun a b => Text.lower a ≠ Text.lower b
  unknown : ∀ name ∈ j.unknownNames, registry.lookup? name = none

variable {registry : Registry} {j : Journal}

theorem onceEach_nil : OnceEach registry [] := ⟨.nil, List.forall_mem_nil _⟩

theorem OnceEach.note (h : j.OnceEach registry) {n : Note} (hn : n.unknown? = none) : OnceEach registry (j ++ [n]) := by
  have hsame : unknownNames (j ++ [n]) = j.unknownNames := by simp [unknownNames, hn]
  exact ⟨hsame ▸ h.distinct, hsame ▸ h.unknown⟩

theorem OnceEach.report (h : j.OnceEach registry) {name : String} (hname : registry.lookup? name = none) :
    (reportTo j name).OnceEach registry := by
  by_cases hreported : reported j name = true
  · rwa [reportTo, if_pos hreported]
  · rw [reportTo, if_neg hreported]
    have hmore : unknownNames (j ++ [.unknownFunction name]) = j.unknownNames ++ [name] := by
      simp [unknownNames, Note.unknown?]
    refine ⟨hmore ▸ List.pairwise_append.mpr ⟨h.distinct, List.pairwise_singleton _ _, ?_⟩, ?_⟩
    · intro other hother same hsame hlower
      obtain rfl := List.mem_singleton.mp hsame
      exact hreported (reported_iff.mpr ⟨other, hother, hlower⟩)
    · rw [hmore]
      exact List.forall_mem_append.mpr ⟨h.unknown, List.forall_mem_singleton.mpr hname⟩

theorem OnceEach.foldl_report (h : j.OnceEach registry) {names : List String}
    (hnames : ∀ name ∈ names, registry.lookup? name = none) : (names.foldl reportTo j).OnceEach registry := by
  induction names generalizing j with
  | nil => exact h
  | cons name rest ih =>
    obtain ⟨hname, hrest⟩ := List.forall_mem_cons.mp hnames
    exact ih (h.report hname) hrest

end Journal

/-! ## Computations that keep it so -/

namespace Evaluation

/-- The computation names no function twice in its journal, and none that is registered. -/
def Keeps {α : Type} (registry : Registry) (x : Evaluation α) : Prop :=
  ∀ journal : Journal, journal.OnceEach registry → (x.start journal).2.OnceEach registry

variable {α β : Type} {registry : Registry}

theorem keeps_pure (a : α) : Keeps registry (pure a : Evaluation α) := fun _ h => h

theorem keeps_lift (e : Except Fault α) : Keeps registry (liftM e : Evaluation α) := fun _ h => h

theorem keeps_note {n : Note} (h : n.unknown? = none) : Keeps registry (note n) := fun _ hj => hj.note h

theorem Notes.keeps {x : Evaluation α} {names : List String} (h : Notes x names)
    (hnames : ∀ name ∈ names, registry.lookup? name = none) : Keeps registry x := fun journal hj => by
  rw [h.journal journal]
  exact hj.foldl_report hnames

theorem Keeps.bind {x : Evaluation α} {f : α → Evaluation β} (hx : Keeps registry x) (hf : ∀ a, Keeps registry (f a)) :
    Keeps registry (x >>= f) := by
  intro journal hj
  have hjournal := hx journal hj
  rw [start_bind]
  rcases hrun : x.start journal with ⟨fault | a, noted⟩
  · rwa [hrun] at hjournal
  · rw [hrun] at hjournal
    exact hf a noted hjournal

theorem Keeps.mapM {f : α → Evaluation β} (hf : ∀ a, Keeps registry (f a)) (as : List α) : Keeps registry (as.mapM f) := by
  induction as with
  | nil => exact keeps_pure _
  | cons a as ih =>
    rw [List.mapM_cons]
    exact (hf a).bind fun b => ih.bind fun _ => keeps_pure _

theorem Keeps.foldlM {f : β → α → Evaluation β} (hf : ∀ b a, Keeps registry (f b a)) (b : β) (as : List α) :
    Keeps registry (as.foldlM f b) := by
  induction as generalizing b with
  | nil => exact keeps_pure _
  | cons a as ih =>
    rw [List.foldlM_cons]
    exact (hf b a).bind ih

theorem Keeps.filterM {p : α → Evaluation Bool} (hp : ∀ a, Keeps registry (p a)) (as : List α) :
    Keeps registry (as.filterM p) := by
  have hrun : ∀ kept, Keeps registry (List.filterAuxM p as kept) := by
    induction as with
    | nil => exact fun kept => keeps_pure _
    | cons a as ih =>
      intro kept
      rw [List.filterAuxM]
      exact (hp a).bind fun _ => ih _
  exact (hrun []).bind fun _ => keeps_pure _

end Evaluation

/-! ## The stages of a query -/

section

variable {scope : Scope}

theorem Expr.keeps_eval (row : Row) (e : Expr) : Keeps scope.registry (e.eval scope row) :=
  (Expr.notes_eval e).keeps (Expr.unknown_of_mem e)

theorem Predicate.keeps_test (row : Row) (p : Predicate) : Keeps scope.registry (p.test scope row) :=
  p.notes_test.keeps (Predicate.unknown_of_mem p)

theorem keeps_argumentValue (row : Row) (e : Expr) : Keeps scope.registry (argumentValue scope row e) := by
  unfold argumentValue
  split
  · exact keeps_pure _
  · exact Expr.keeps_eval row _

theorem keeps_aggregateValue (rows : List Row) (call : Expr) : Keeps scope.registry (aggregateValue scope rows call) := by
  unfold aggregateValue
  split
  · split
    · exact keeps_lift _
    · exact keeps_pure _
  · split
    · exact (Keeps.mapM (fun r => keeps_argumentValue r _) rows).bind fun _ => keeps_lift _
    · exact keeps_pure _
  · exact keeps_pure _

theorem keeps_rowKeys (exprs : List Expr) (row : Row) : Keeps scope.registry (rowKeys scope exprs row) :=
  Keeps.mapM (fun e => (Expr.keeps_eval row e).bind fun _ => keeps_pure _) exprs

theorem keeps_groupsOf (groupBy : List Expr) (rows : List Row) : Keeps scope.registry (groupsOf scope groupBy rows) := by
  unfold groupsOf
  split
  · exact keeps_pure _
  · exact (Keeps.mapM (fun r => (keeps_rowKeys groupBy r).bind fun _ => keeps_pure _) rows).bind fun _ => keeps_pure _

theorem keeps_groupRow (calls : Entries Expr) (rows : List Row) : Keeps scope.registry (groupRow scope calls rows) :=
  Keeps.foldlM (fun _ e => (keeps_aggregateValue rows e.2).bind fun _ => keeps_pure _) _ calls

theorem keeps_groupRows (groupBy : List Expr) (select : List SelectItem) (having : Option Predicate)
    (orderBy : List OrderItem) (rows : List Row) :
    Keeps scope.registry (groupRows scope groupBy select having orderBy rows) :=
  (keeps_groupsOf groupBy rows).bind fun groups => (Keeps.mapM (keeps_groupRow _) groups).bind fun _ =>
    (keeps_note rfl).bind fun _ => keeps_pure _

theorem keeps_ranks (w : Window) (rows : List Row) : Keeps scope.registry (w.ranks scope rows) := by
  have hkeyed : ∀ member : Nat × Row, Keeps scope.registry (do
      let keys ← rowKeys scope w.partitionBy member.2
      return (keys, member)) := fun member => (keeps_rowKeys w.partitionBy member.2).bind fun _ => keeps_pure _
  have hordered : ∀ member : Nat × Row, Keeps scope.registry (do
      let values ← w.orderBy.mapM fun o => o.expr.eval scope member.2
      return (values, member.1)) := fun member =>
    (Keeps.mapM (fun o => Expr.keeps_eval member.2 o.expr) w.orderBy).bind fun _ => keeps_pure _
  exact (Keeps.mapM hkeyed _).bind fun keyed =>
    (Keeps.mapM (fun members => (Keeps.mapM hordered members).bind fun _ => keeps_pure _) (bucketsBy keyed)).bind
      fun _ => keeps_pure _

theorem keeps_applyWindows (select : List SelectItem) (rows : List Row) :
    Keeps scope.registry (applyWindows scope select rows) := by
  unfold applyWindows
  dsimp only
  split
  · exact keeps_pure _
  · have hnamed : ∀ x : String × Window, Keeps scope.registry (do
        let ranks ← x.2.ranks scope rows
        return (x.1, ranks)) := fun x => (keeps_ranks x.2 rows).bind fun _ => keeps_pure _
    exact (Keeps.mapM hnamed _).bind fun _ => (keeps_note rfl).bind fun _ => keeps_pure _

theorem keeps_joinAll (rows : List Row) (joins : List (Join × List Row)) : Keeps scope.registry (joinAll scope rows joins) := by
  induction joins generalizing rows with
  | nil => exact keeps_pure _
  | cons join rest ih => exact (keeps_note rfl).bind fun _ => ih _

theorem keeps_filterRows (clause : Clause) (condition : Option Predicate) (rows : List Row) :
    Keeps scope.registry (Plan.filterRows scope clause condition rows) := by
  cases condition with
  | none => exact keeps_pure _
  | some p =>
    exact (Keeps.filterM (fun r => p.keeps_test r) rows).bind fun _ => (keeps_note rfl).bind fun _ => keeps_pure _

theorem keeps_workingRows (plan : Plan) (tables : SourceTables) : Keeps scope.registry (plan.workingRows scope tables) := by
  have hranked : ∀ rows : List Row, Keeps scope.registry (do
      let left ← Plan.filterRows scope .having plan.having rows
      applyWindows scope plan.select left) := fun rows =>
    (keeps_filterRows .having plan.having rows).bind fun left => keeps_applyWindows plan.select left
  refine (keeps_note rfl).bind fun _ => (keeps_joinAll _ _).bind fun rows => (keeps_filterRows _ _ _).bind fun rows => ?_
  dsimp only
  split
  · exact (keeps_groupRows _ _ _ _ _).bind hranked
  · exact hranked rows

theorem keeps_projectRow (columns : List (String × ColumnSource)) (row : Row) :
    Keeps scope.registry (projectRow scope columns row) := by
  have hvalue : ∀ source : ColumnSource, Keeps scope.registry (source.value scope row) := by
    intro source
    cases source with
    | expr e => exact e.keeps_eval row
    | _ => exact keeps_pure _
  exact (Keeps.mapM (fun c => (hvalue c.2).bind fun _ => keeps_pure _) columns).bind fun _ => keeps_pure _

theorem keeps_orderRows (orderBy : List OrderItem) (rows : List Projected) :
    Keeps scope.registry (orderRows scope orderBy rows) := by
  have hvalue : ∀ (p : Projected) (o : OrderItem), Keeps scope.registry (sortValue scope p o) := by
    intro p o
    unfold sortValue
    split
    · exact keeps_pure _
    · exact o.expr.keeps_eval p.source
  exact (Keeps.mapM (fun p => (Keeps.mapM (hvalue p) orderBy).bind fun _ => keeps_pure _) rows).bind fun _ => keeps_pure _

theorem keeps_projectedRows (plan : Plan) (columns : List (String × ColumnSource)) (rows : List Row) :
    Keeps scope.registry (plan.projectedRows scope columns rows) := by
  have hordered : ∀ projected : List Projected, Keeps scope.registry
      (if plan.orderBy.isEmpty then pure projected else orderRows scope plan.orderBy projected) := by
    intro projected
    split
    · exact keeps_pure _
    · exact keeps_orderRows _ _
  refine (Keeps.mapM (fun r => (keeps_projectRow columns r).bind fun _ => keeps_pure _) rows).bind fun projected => ?_
  dsimp only
  split
  · exact (keeps_note rfl).bind fun _ => hordered _
  · exact hordered _

end

/-- A result has one warning for an unknown function at most, and none for others. -/
theorem Plan.execute_warnings {registry : Registry} {plan : Plan} {dataset : Dataset} {result : QueryResult}
    {journal : Journal} (h : plan.execute registry dataset = .ok (.ok result, journal)) :
    ∃ names : List String, names.Pairwise (fun a b => Text.lower a ≠ Text.lower b) ∧
      (∀ name ∈ names, registry.lookup? name = none) ∧ result.warnings = names.map unknownWarning := by
  obtain ⟨rows, projected, noted, ⟨tables, before, -, hworking, hprojected⟩, rfl, -⟩ := Plan.execute_eq_ok.mp h
  have hbefore : before.OnceEach registry := by
    have hkeeps := @keeps_workingRows ⟨registry, []⟩ plan tables [] Journal.onceEach_nil
    rwa [hworking] at hkeeps
  have hnoted : noted.OnceEach registry := by
    have hkeeps := @keeps_projectedRows ⟨registry, []⟩ plan (plan.columns registry rows) rows before hbefore
    rwa [hprojected] at hkeeps
  exact ⟨noted.unknownNames, hnoted.distinct, hnoted.unknown, noted.warnings_eq⟩

/-- Unknown functions are reported once each. Behind any requests to one evaluator its journal has the names of the
unknown functions that were called, in order, without those that differ from an earlier one in case only. Such a call
is null, and its arguments are not evaluated. In the warnings of a result no function comes twice. -/
theorem unknown_functions_reported_once (registry : Registry) :
    (∀ requests : List Request, requests.foldl (Request.journalAfter registry) [] =
      (firstSpellings (requests.flatMap (Request.unknownCalls registry))).map .unknownFunction) ∧
    (∀ (name : String) (bindings : Entries Value) (row : Row) (journal : Journal), registry.lookup? name = none →
      (∀ args, ((Expr.call name args).eval ⟨registry, bindings⟩ row).start journal = (.ok .null, reportTo journal name)) ∧
      ((Expr.callStar name).eval ⟨registry, bindings⟩ row).start journal = (.ok .null, reportTo journal name)) ∧
    ∀ (plan : Plan) (dataset : Dataset) (result : QueryResult) (journal : Journal),
      plan.execute registry dataset = .ok (.ok result, journal) →
      ∃ names : List String, names.Pairwise (fun a b => Text.lower a ≠ Text.lower b) ∧
        (∀ name ∈ names, registry.lookup? name = none) ∧ result.warnings = names.map unknownWarning := by
  refine ⟨Request.journal_of_requests, fun name bindings row journal hname => ⟨fun args => ?_, ?_⟩,
    fun plan dataset result journal h => Plan.execute_warnings h⟩
  · exact (@Expr.eval_unknown ⟨registry, bindings⟩ row name hname args journal).1
  · exact (@Expr.eval_unknown ⟨registry, bindings⟩ row name hname [] journal).2

/-- `foo(bar())`, whose argument is not evaluated, then `FOO() OR bar()`. -/
def requestsOfUnknown : List Request :=
  [.evaluate (.call "foo" [.call "bar" []]) Row.empty [],
    .test (.or (.truth (.call "FOO" [])) (.truth (.call "bar" []))) Row.empty []]

/-- `SELECT foo(a), Foo(a) FROM t`. -/
def selectOfUnknown : Plan :=
  { Plan.blank with
    select := [⟨.expr (.call "foo" [.column "a"]), none⟩, ⟨.expr (.call "Foo" [.column "a"]), none⟩]
    table := "t" }

theorem execute_selectOfUnknown : ∃ result journal,
    selectOfUnknown.execute Registry.builtin ⟨[("t", .list [.map [("a", Value.ofInt 1)]])]⟩ = .ok (.ok result, journal) ∧
      result.warnings = ["UnknownFunction: Unknown function 'foo'"] := ⟨_, _, rfl, rfl⟩

theorem unknown_functions_reported_once_foo :
    requestsOfUnknown.foldl (Request.journalAfter Registry.builtin) [] = [.unknownFunction "foo", .unknownFunction "bar"] ∧
    (∀ journal, ((Expr.call "foo" [.call "bar" []]).eval ⟨Registry.builtin, []⟩ Row.empty).start journal =
      (.ok .null, reportTo journal "foo")) ∧
    ∃ result journal,
      selectOfUnknown.execute Registry.builtin ⟨[("t", .list [.map [("a", Value.ofInt 1)]])]⟩ = .ok (.ok result, journal) ∧
      result.warnings = ["UnknownFunction: Unknown function 'foo'"] ∧
      ∃ names : List String, names.Pairwise (fun a b => Text.lower a ≠ Text.lower b) ∧
        (∀ name ∈ names, Registry.builtin.lookup? name = none) ∧ result.warnings = names.map unknownWarning := by
  obtain ⟨hrequests, hnull, hwarnings⟩ := unknown_functions_reported_once Registry.builtin
  have hcalls : requestsOfUnknown.flatMap (Request.unknownCalls Registry.builtin) = ["foo", "FOO", "bar"] := rfl
  refine ⟨(hrequests requestsOfUnknown).trans ?_, fun journal => (hnull "foo" [] Row.empty journal rfl).1 _, ?_⟩
  · rw [hcalls]
    rfl
  · obtain ⟨result, journal, hrun, hfoo⟩ := execute_selectOfUnknown
    exact ⟨result, journal, hrun, hfoo, hwarnings selectOfUnknown _ result journal hrun⟩

end JsonTables
