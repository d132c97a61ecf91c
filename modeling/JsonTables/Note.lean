/-
  JsonTables.Note — what is noted while a query runs. A warning belongs to the result as well; the other
  notes only go to the log.
-/

import JsonTables.Plan
import JsonTables.QueryError
import JsonTables.Text.Quoted

namespace JsonTables

/-- How much a note matters. -/
inductive Severity where
  | debug | info | warning | error | critical
  deriving DecidableEq, Repr

namespace Severity

def rank : Severity → Nat
  | debug => 0
  | info => 1
  | warning => 2
  | error => 3
  | critical => 4

def name : Severity → String
  | debug => "DEBUG"
  | info => "INFO"
  | warning => "WARNING"
  | error => "ERROR"
  | critical => "CRITICAL"

end Severity

inductive Note where
  | unknownFunction (name : String)
  | loaded (path : String) (keys : Nat)
  | unknownHint (name : String)
  | base (table : String) (rows : Nat)
  | joined (kind : JoinKind) (table : String) (rows : Nat)
  | filtered (clause : Clause) (rows : Nat)
  | grouped (rows groups : Nat)
  | ranked (windows rows : Nat)
  | distinct (rows : Nat)
  | result (rows columns : Nat)
  deriving DecidableEq, Repr

namespace Note

def severity : Note → Severity
  | unknownFunction _ => .warning
  | _ => .debug

/-- The part of the program that writes the note. -/
def source : Note → String
  | unknownFunction _ => "tabql.evaluator"
  | loaded .. => "tabql.dataset"
  | unknownHint _ => "tabql.parsing.clauses"
  | joined .. => "tabql.joins"
  | grouped .. => "tabql.grouping"
  | ranked .. => "tabql.window"
  | base .. | filtered .. | distinct _ | result .. => "tabql.query_executor"

def message : Note → String
  | unknownFunction name => s!"Unknown function '{name}'"
  | loaded path keys => s!"Loaded dataset {path} with {keys} top-level keys"
  | unknownHint name => s!"Ignoring unknown hint {Text.quoted name}"
  | base table rows => s!"FROM {table}: {rows} rows"
  | joined kind table rows => s!"{kind.spelling} JOIN {table}: {rows} rows"
  | filtered clause rows => s!"{clause.name}: {rows} rows"
  | grouped rows groups => s!"Grouped {rows} rows into {groups} groups"
  | ranked windows rows => s!"Applied {windows} window functions to {rows} rows"
  | distinct rows => s!"DISTINCT: {rows} rows"
  | result rows columns => s!"Result: {rows} rows, {columns} columns"

/-- The note as a line of the log. -/
def logLine (n : Note) : String := s!"{n.severity.name} {n.source}: {n.message}"

/-- What a result says of the note, if it is a warning. -/
def warning? : Note → Option String
  | n@(unknownFunction _) => some s!"UnknownFunction: {n.message}"
  | _ => none

end Note

/-- Notes in the order in which they were made. -/
abbrev Journal := List Note

/-- The warnings of a result. -/
def Journal.warnings (j : Journal) : List String := j.filterMap Note.warning?

end JsonTables
