/-
  JsonTables.Dataset.Load — a dataset from the JSON text of a file. A list stands for a dataset that
  holds it as `data`; any other value but a mapping is refused.
-/

import JsonTables.Dataset.Basic
import JsonTables.File
import JsonTables.Json.Reader
import JsonTables.Text.Blank

namespace JsonTables

/-- Why a file gives no dataset. -/
inductive DatasetError where
  | notFound
  | unreadable (fault : FileFault)
  /-- The text is no JSON, with what the reader says. -/
  | invalid (message : String)
  | noMapping
  /-- An integer of the text has too many digits, which is not caught where the other errors are. -/
  | overlong
  deriving DecidableEq, Repr

def DatasetError.message (path : String) : DatasetError → String
  | notFound => s!"Dataset file not found: {path}"
  | unreadable fault => s!"Cannot read {path}: {fault.message path}"
  | invalid message => s!"Invalid JSON in {path}: {message}"
  | noMapping => s!"Dataset must be a JSON object or array: {path}"
  | overlong => s!"Exceeds the limit for integers: {path}"

namespace Dataset

/-- The dataset that a text denotes. -/
def ofText (text : String) : Except DatasetError Dataset :=
  let cs := Text.unifyLineEnds text.toList
  match Json.read maxDigits cs with
  | .error f => .error (if f.reason = .overlong then .overlong else .invalid (f.message cs))
  | .ok (.list items) => .ok ⟨[("data", .list items)]⟩
  | .ok (.map es) => .ok ⟨es⟩
  | .ok _ => .error .noMapping

/-- The dataset of a file. -/
def ofFile (content : Except FileFault String) : Except DatasetError Dataset :=
  match content with
  | .ok text => ofText text
  | .error .notFound => .error .notFound
  | .error fault => .error (.unreadable fault)

end Dataset

end JsonTables
