/-
  JsonTables.TopLevel — cutting text at a delimiter that stands outside parentheses, quotes of the three
  kinds and comments. In quotes a backslash takes the next character with it. A script is cut at its
  semicolons, without the lines that hold nothing but a comment.
-/

import JsonTables.Text.Blank
import JsonTables.Text.Search

namespace JsonTables

namespace TopLevel

/-- Where the text is being read. -/
inductive Place where
  | plain
  | quote (mark : Char)
  /-- Behind a backslash in quotes. -/
  | escaped (mark : Char)
  | comment
  /-- Inside a delimiter, of which so many characters are left. -/
  | delimiter (left : Nat)
  deriving DecidableEq, Repr

def isQuote (c : Char) : Bool := c = '\x27' || c = '\x22' || c = '\x60'

/-- The pieces of a text; `current` holds the piece being read, its last character first. -/
def pieces (delimiter : List Char) (place : Place) (depth : Nat) (current : List Char) :
    List Char → List (List Char)
  | [] => [current.reverse]
  | c :: rest =>
    match place with
    | .delimiter (left + 1) => pieces delimiter (.delimiter left) depth current rest
    | .quote mark =>
      let place := if c = '\\' then .escaped mark else if c = mark then .plain else .quote mark
      pieces delimiter place depth (c :: current) rest
    | .escaped mark => pieces delimiter (.quote mark) depth (c :: current) rest
    | _ =>
      if place = .comment ∧ c ≠ '\n' then pieces delimiter .comment depth (c :: current) rest
      else if isQuote c then pieces delimiter (.quote c) depth (c :: current) rest
      else if c = '-' ∧ rest.head? = some '-' then pieces delimiter .comment depth (c :: current) rest
      else if c = '(' then pieces delimiter .plain (depth + 1) (c :: current) rest
      else if c = ')' then pieces delimiter .plain (depth - 1) (c :: current) rest
      else if depth = 0 ∧ !delimiter.isEmpty ∧ delimiter.isPrefixOf (c :: rest) then
        current.reverse :: pieces delimiter (.delimiter (delimiter.length - 1)) 0 [] rest
      else pieces delimiter .plain depth (c :: current) rest

/-- The pieces between delimiters without the white space around them, empty ones left out. -/
def split (delimiter : List Char) (text : List Char) : List (List Char) :=
  ((pieces delimiter .plain 0 [] text).map Text.trim).filter (!·.isEmpty)

end TopLevel

/-! ## Scripts -/

namespace Script

/-- Whether a line holds nothing but a comment. -/
def isComment (line : List Char) : Bool := ['-', '-'].isPrefixOf (Text.trim line)

/-- The text without the lines that hold nothing but a comment. -/
def dropComments (text : List Char) : List Char :=
  ['\n'].intercalate ((Text.splitOn '\n' text).filter (!isComment ·))

/-- The statements of a script. -/
def statements (text : List Char) : List String :=
  (TopLevel.split [';'] (dropComments text)).map String.ofList

/-- Whether more lines belong to a statement: a semicolon ends it. -/
def continues (line : String) : Bool :=
  match (Text.trim line.toList).getLast? with
  | none => false
  | some c => c ≠ ';'

end Script

end JsonTables
