/-
  JsonTables.Statement.Parser — a statement's plan from its text. Semicolons at the end do not count and
  hints are set apart before the tokens are read one by one. A failure names the token at which no
  statement goes on, with the clause that holds it.
-/

import JsonTables.Hint.Extraction
import JsonTables.Statement.Step

namespace JsonTables.Statement

/-- A text without the white space around it and without semicolons at its end. -/
def body (text : List Char) : List Char :=
  Text.dropEndWhile (fun c => c = ';' || Text.isBlank c) (Text.trimStart text)

/-- The plan that the tokens make from a state on, or the token that does not fit, none at the end. -/
def run (s : State) : List Lexeme → Except (Option Lexeme) Plan
  | [] => match s.plan? with
    | some plan => .ok plan
    | none => .error none
  | x :: rest => match s.step x.token with
    | some s => run s rest
    | none => .error (some x)

/-- The fault of a statement that stops fitting at a token or at the end: it lies in the clause of that
position, at the end in the last one. -/
def syntaxError (text : List Char) (located : List LocatedClause) (at_ : Option Lexeme) : Malformed :=
  let place (c : LocatedClause) := (c.clause, Clause.textOf text located c)
  match at_ with
  | some x =>
    .syntaxError (.token x.token.shown x.position) ((Clause.at? located x.position).map place)
  | none => .syntaxError .endOfInput (located.getLast?.map place)

/-- The plan of a text without hints. -/
def parseClauses (text : List Char) : Except Malformed Plan := do
  let lexemes ← Token.lex text
  let located := Clause.locate lexemes
  let has (c : Clause) := located.any (·.clause == c)
  if !has .select then throw (.missingClause .select)
  if !has .from_ then throw (.missingClause .from_)
  (run State.start lexemes).mapError (syntaxError text located)

/-- The plan of a statement. -/
def parse (sql : String) : Except Malformed Plan := do
  let text := body sql.toList
  if text.isEmpty then throw .emptyQuery
  let extraction ← Hint.extract text
  let plan ← parseClauses extraction.text
  return { plan with hints := extraction.hints }

/-- The names in a statement's list of hints that are no hints, in order. -/
def unknownHints (sql : String) : List String :=
  match Hint.extract (body sql.toList) with
  | .ok extraction => extraction.unknown
  | .error _ => []

end JsonTables.Statement
