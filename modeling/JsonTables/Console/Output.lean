/-
  JsonTables.Console.Output — what the program writes: lines and prompts, errors, and notes for the log.
-/

import JsonTables.Dataset.Load
import JsonTables.Query.Execute
import JsonTables.Statement.Parser
import JsonTables.Table.Pager

namespace JsonTables.Console

inductive Output where
  /-- A line of the standard output. -/
  | line (s : String)
  /-- Standard output that no line end follows. -/
  | text (s : String)
  /-- A line of the error output. -/
  | error (s : String)
  | note (n : Note)
  deriving DecidableEq, Repr

namespace Output

/-- What goes to the standard output. -/
def toStdout : Output → String
  | line s => s ++ "\n"
  | text s => s
  | error _ | note _ => ""

/-- What goes to the error output, with notes of less severity than the threshold left out. -/
def toStderr (threshold : Severity) : Output → String
  | line _ | text _ => ""
  | error s => s ++ "\n"
  | note n => if threshold.rank ≤ n.severity.rank then n.logLine ++ "\n" else ""

end Output

/-- What became of a statement. -/
inductive Answer where
  | result (r : QueryResult)
  | refused (e : QueryError)
  | failed (fault : Fault)
  /-- An integer has too many digits: one in the statement, in a text to be made or in the output. -/
  | overlong

/-- A statement carried out on a dataset, with what was noted on the way. -/
def answer (dataset : Dataset) (sql : String) : Journal × Answer :=
  let ignored := (Statement.unknownHints sql).map Note.unknownHint
  match Statement.parse sql with
  | .error (.overlong _) => (ignored, .overlong)
  | .error e => (ignored, .refused (.malformed e))
  | .ok plan =>
    match plan.execute Registry.builtin dataset with
    | .error e => (ignored, .refused e)
    | .ok (.error .digits, journal) => (ignored ++ journal, .overlong)
    | .ok (.error fault, journal) => (ignored ++ journal, .failed fault)
    | .ok (.ok r, journal) =>
      match r.output with
      -- The output is made before the result is noted.
      | some (.error _) => (ignored ++ journal.dropLast, .overlong)
      | _ => (ignored ++ journal, .result r)

/-- The line under a table. -/
def rowCount (n : Nat) : String := if n = 1 then "1 row in set" else s!"{n} rows in set"

/-- A result as output, and the pages that are to follow. Pages are used only where a pager is there,
and a result without rows has none. -/
def present (pager : Bool) (pageSize : Int) (r : QueryResult) : List Output × List Page :=
  let warnings := r.warnings.map fun w => Output.line ("Warning: " ++ w)
  match r.output with
  | some (.ok json) => (warnings ++ [.line json], [])
  | some (.error _) => (warnings, [])
  | none =>
    if r.paginate && pager then
      if r.rows.isEmpty then (warnings ++ [.line (Grid.render r.columns r.rows)], [])
      else (warnings, Pager.pages r.columns pageSize r.rows)
    else
      let table := Output.line (Grid.render r.columns r.rows)
      (warnings ++ table :: if r.rows.isEmpty then [] else [.line (rowCount r.rows.length)], [])

/-- A page as output. -/
def showPage (page : Page) : List Output := [.line page.table, .text page.prompt]

/-- The pages still to be shown after an answer, none of it at the end of input. -/
def afterAnswer (rest : List Page) (input : Option String) : List Page :=
  match input with
  | some s => if Pager.quits s then [] else rest
  | none => []

/-- Files by their paths. -/
abbrev Files := String → Except FileFault String

/-- What the program does next. -/
inductive Status (σ : Type) where
  /-- A line of input is waited for. -/
  | waiting (state : σ)
  | finished (code : Nat)
  | failed (fault : Fault)

/-- The status with its state seen as another one. -/
def Status.map {σ τ : Type} (f : σ → τ) : Status σ → Status τ
  | waiting state => waiting (f state)
  | finished code => finished code
  | failed fault => failed fault

end JsonTables.Console
