/-
  JsonTables.QueryError — why a query has no result: its text is malformed, or a path in it leads to no
  table. Each cause is kept with what its message needs.
-/

import JsonTables.Arity

namespace JsonTables

/-- The clauses of a statement. -/
inductive Clause where
  | select | from_ | where_ | groupBy | having | orderBy | limit | offset | with_
  deriving DecidableEq, Repr

def Clause.name : Clause → String
  | select => "SELECT"
  | from_ => "FROM"
  | where_ => "WHERE"
  | groupBy => "GROUP BY"
  | having => "HAVING"
  | orderBy => "ORDER BY"
  | limit => "LIMIT"
  | offset => "OFFSET"
  | with_ => "WITH"

/-- Where a statement stops making sense. -/
inductive SyntaxPoint where
  /-- At a token, shown as messages show it, at a position. -/
  | token (shown : String) (position : Nat)
  | endOfInput
  deriving DecidableEq, Repr

def SyntaxPoint.message : SyntaxPoint → String
  | token shown position => s!"at '{shown}' (position {position})"
  | endOfInput => "at end of input"

/-- What is wrong with a query. -/
inductive Malformed where
  | illegalCharacter (c : Char) (position : Nat)
  /-- An integer of more digits than are read. -/
  | overlong (digits : Nat)
  | emptyQuery
  | noHintList
  /-- The text from the word that opens the hints. -/
  | unterminatedHints (text : String)
  /-- The text behind the list. -/
  | textAfterHints (text : String)
  | missingClause (clause : Clause)
  /-- The clause that holds the point, with its text, unless the point comes before all clauses. -/
  | syntaxError (point : SyntaxPoint) (place : Option (Clause × String))
  | unknownWindow (name : String)
  | arity (name : String) (accepted : Arity) (count : Nat)
  deriving DecidableEq, Repr

def Malformed.message : Malformed → String
  | illegalCharacter c position => s!"Illegal character '{c}' at position {position}"
  | overlong digits => s!"Exceeds the limit for integers: {digits} digits"
  | emptyQuery => "Empty query"
  | noHintList => "WITH must be followed by a parenthesised hint list"
  | unterminatedHints text => s!"Unterminated hint list: {text}"
  | textAfterHints text => s!"Unexpected text after hint list: {text}"
  | missingClause clause => s!"Missing {clause.name} clause"
  | syntaxError point none => s!"Syntax error {point.message}"
  | syntaxError point (some (clause, text)) =>
    s!"Syntax error in {clause.name} clause {point.message}: {text}"
  | unknownWindow name => s!"Unknown window function: {name}"
  | arity name accepted count => accepted.message name count

/-- Why a path leads to no table. -/
inductive NoTable where
  /-- Nothing stands there. -/
  | absent
  | notATable
  | notRows
  deriving DecidableEq, Repr

def NoTable.message (path : String) : NoTable → String
  | absent => s!"Unknown table: {path}"
  | notATable => s!"Unknown table: {path} (not a table)"
  | notRows => s!"Unknown table: {path} (not a list of rows)"

inductive QueryError where
  | malformed (cause : Malformed)
  | unknownTable (path : String) (cause : NoTable)
  deriving DecidableEq, Repr

def QueryError.message : QueryError → String
  | malformed cause => cause.message
  | unknownTable path cause => cause.message path

end JsonTables
