/-
  JsonTables.Evaluation — computations that keep a journal and may end in a fault of arithmetic. What was
  noted before the fault stays noted.
-/

import JsonTables.Note
import JsonTables.Number
import JsonTables.Text.Case

namespace JsonTables

abbrev Evaluation (α : Type) := ExceptT Fault (StateM Journal) α

namespace Evaluation

/-- The outcome of a computation that starts with a journal, and the journal at its end. -/
def start {α : Type} (x : Evaluation α) (journal : Journal) : Except Fault α × Journal :=
  StateT.run (ExceptT.run x) journal

def note (n : Note) : Evaluation Unit := modifyThe Journal (· ++ [n])

/-- Whether the journal speaks of an unknown function of this name, in whatever case. -/
def reported (journal : Journal) (name : String) : Bool :=
  journal.any fun
    | .unknownFunction other => Text.lower other == Text.lower name
    | _ => false

/-- Notes an unknown function, once for all spellings of its name. -/
def reportUnknown (name : String) : Evaluation Unit :=
  modifyThe Journal fun j => if reported j name then j else j ++ [.unknownFunction name]

end Evaluation

end JsonTables
