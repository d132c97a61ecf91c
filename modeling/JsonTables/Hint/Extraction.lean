/-
  JsonTables.Hint.Extraction — the hints behind a statement, as in `WITH (PAGINATE)`. The first `WITH`
  outside parentheses opens them, and nothing but semicolons may follow the list. Names count without
  regard to case, and unknown ones are set aside.
-/

import JsonTables.Clause.Located
import JsonTables.Plan
import JsonTables.Text.Search
import JsonTables.TopLevel

namespace JsonTables.Hint

/-- A statement without its hints, the hints, and the names that are none. -/
structure Extraction where
  text : List Char
  hints : Hints
  unknown : List String
  deriving DecidableEq, Repr

/-- The extraction with one more name. -/
def Extraction.add (x : Extraction) (name : String) : Extraction :=
  match Text.upper name with
  | "HEADERCOLUMNUPPERCASE" => { x with hints := { x.hints with upperHeaders := true } }
  | "OUTPUTJSON" => { x with hints := { x.hints with jsonOutput := true } }
  | "PAGINATE" => { x with hints := { x.hints with paginate := true } }
  | _ => { x with unknown := x.unknown ++ [name] }

/-- What remains of the text from a position on, without white space around it. -/
def textFrom (text : List Char) (position : Nat) : String :=
  String.ofList (Text.trim (text.drop position))

/-- The hints that a list opened at `opening` by the word at `word` holds, if it is closed and nothing
follows. -/
def readList (text : List Char) (word opening : Lexeme) (rest : List (Lexeme × Nat)) :
    Except Malformed Extraction :=
  match rest.dropWhile fun (x, depth) => !(x.isSymbol .rightParen && depth == 0) with
  | [] => .error (.unterminatedHints (textFrom text word.position))
  | (close, _) :: behind =>
    match behind.find? fun (x, _) => !x.isSymbol .semicolon with
    | some (x, _) => .error (.textAfterHints (textFrom text x.position))
    | none =>
      let inside := Text.slice text (opening.position + 1) close.position
      let bare : Extraction := ⟨Text.trimEnd (text.take word.position), Hints.empty, []⟩
      .ok ((TopLevel.split [','] inside).foldl (fun x name => x.add (String.ofList name)) bare)

/-- The hints of a text. -/
def extract (text : List Char) : Except Malformed Extraction := do
  let lexemes ← Token.lex text
  match (withDepth 0 lexemes).dropWhile fun (x, depth) => !(x.isKeyword .with_ && depth == 0) with
  | [] => return ⟨text, Hints.empty, []⟩
  | (word, _) :: (opening, _) :: rest =>
    if opening.isSymbol .leftParen then readList text word opening rest else throw .noHintList
  | _ => throw .noHintList

end JsonTables.Hint
