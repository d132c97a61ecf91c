/-
  JsonTables.Clause.Located — where the clauses of a text start. Only words outside parentheses count,
  of each clause the first, and `GROUP` and `ORDER` only with `BY` right behind them. Each clause takes
  up the text to the start of the next.
-/

import JsonTables.Text.Blank
import JsonTables.Text.Search
import JsonTables.Token.Lexer

namespace JsonTables

/-- A clause and the position at which it starts. -/
structure LocatedClause where
  clause : Clause
  start : Nat
  deriving DecidableEq, Repr

/-- The tokens with the number of parentheses open around each; a parenthesis counts with what stands
around it, and one that closes nothing is passed over. -/
def withDepth (depth : Nat) : List Lexeme → List (Lexeme × Nat)
  | [] => []
  | x :: rest =>
    if x.isSymbol .rightParen then (x, depth - 1) :: withDepth (depth - 1) rest
    else if x.isSymbol .leftParen then (x, depth) :: withDepth (depth + 1) rest
    else (x, depth) :: withDepth depth rest

namespace Clause

/-- The clause that a word opens in front of `next`. -/
def opened? (x : Lexeme) (next : Option Lexeme) : Option Clause :=
  let paired (c : Clause) := match next with
    | some y => if y.isKeyword .by_ then some c else none
    | none => none
  match x.token with
  | .keyword .select _ => some select
  | .keyword .from_ _ => some from_
  | .keyword .where_ _ => some where_
  | .keyword .group _ => paired groupBy
  | .keyword .having _ => some having
  | .keyword .order _ => paired orderBy
  | .keyword .limit _ => some limit
  | .keyword .offset _ => some offset
  | .keyword .with_ _ => some with_
  | _ => none

/-- Every place outside parentheses where a clause opens. -/
def openings : List (Lexeme × Nat) → List LocatedClause
  | [] => []
  | (x, depth) :: rest =>
    match if depth = 0 then opened? x (rest.head?.map Prod.fst) else none with
    | some c => ⟨c, x.position⟩ :: openings rest
    | none => openings rest

/-- Of each clause the first opening; `seen` are the clauses that have one. -/
def firstOnly (seen : List Clause) : List LocatedClause → List LocatedClause
  | [] => []
  | x :: rest =>
    if x.clause ∈ seen then firstOnly seen rest else x :: firstOnly (x.clause :: seen) rest

/-- The clauses of a text from its tokens, by position. -/
def locate (lexemes : List Lexeme) : List LocatedClause :=
  firstOnly [] (openings (withDepth 0 lexemes))

/-- The clause in which a position lies. -/
def at? (located : List LocatedClause) (position : Nat) : Option LocatedClause :=
  (located.filter (·.start ≤ position)).getLast?

/-- The text of a located clause, up to the start of the next. -/
def textOf (text : List Char) (located : List LocatedClause) (x : LocatedClause) : String :=
  let stop := match located.find? (x.start < ·.start) with
    | some next => next.start
    | none => text.length
  String.ofList (Text.trim (Text.slice text x.start stop))

end Clause

end JsonTables
