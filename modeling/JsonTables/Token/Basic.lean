/-
  JsonTables.Token.Basic — the tokens of query text and where they stand in it.
-/

import JsonTables.Binary64.Shortest
import JsonTables.Text.Case

namespace JsonTables

/-- The reserved words. -/
inductive Keyword where
  | select | from_ | where_ | group | by_ | having | order | limit | offset | with_ | as_ | distinct
  | join | inner | left | right | full | outer | on_ | and | or | contains | asc | desc | over_
  | partition | true_ | false_ | null
  deriving DecidableEq, Repr

namespace Keyword

/-- Each reserved word with its spelling. -/
def spellings : List (Keyword × String) :=
  [(select, "select"), (from_, "from"), (where_, "where"), (group, "group"), (by_, "by"),
    (having, "having"), (order, "order"), (limit, "limit"), (offset, "offset"), (with_, "with"),
    (as_, "as"), (distinct, "distinct"), (join, "join"), (inner, "inner"), (left, "left"),
    (right, "right"), (full, "full"), (outer, "outer"), (on_, "on"), (and, "and"), (or, "or"),
    (contains, "contains"), (asc, "asc"), (desc, "desc"), (over_, "over"), (partition, "partition"),
    (true_, "true"), (false_, "false"), (null, "null")]

/-- The reserved word that a name is, in whatever case it is written. -/
def ofName? (name : String) : Option Keyword :=
  let lowered := Text.lower name
  (spellings.find? (·.2 == lowered)).map Prod.fst

/-- The word in lower case. -/
def spelling (k : Keyword) : String := ((spellings.find? (·.1 == k)).map Prod.snd).getD ""

end Keyword

inductive Symbol where
  | star | comma | dot | leftParen | rightParen
  | equal
  /-- `!=` -/
  | notEqual
  /-- `<>` -/
  | unequal
  | less | lessEqual | greater | greaterEqual | semicolon | plus | minus | slash | percent
  deriving DecidableEq, Repr

def Symbol.spelling : Symbol → String
  | star => "*"
  | comma => ","
  | dot => "."
  | leftParen => "("
  | rightParen => ")"
  | equal => "="
  | notEqual => "!="
  | unequal => "<>"
  | less => "<"
  | lessEqual => "<="
  | greater => ">"
  | greaterEqual => ">="
  | semicolon => ";"
  | plus => "+"
  | minus => "-"
  | slash => "/"
  | percent => "%"

inductive Token where
  | identifier (name : String)
  | integer (n : Nat)
  | float (x : Binary64)
  | text (s : String)
  /-- A reserved word, as it is written. -/
  | keyword (k : Keyword) (written : String)
  | symbol (s : Symbol)
  deriving DecidableEq

/-- What a message shows of a token: the value of a literal, and else the text as written. -/
def Token.shown : Token → String
  | identifier name => name
  | integer n => toString n
  | float x => Binary64.plain.text x
  | text s => s
  | keyword _ written => written
  | symbol s => s.spelling

/-- A token in its place. -/
structure Lexeme where
  token : Token
  /-- The number of characters before it. -/
  position : Nat
  /-- The number of characters it takes up. -/
  length : Nat
  /-- One more than the number of line ends between tokens before it. -/
  line : Nat
  deriving DecidableEq

namespace Lexeme

def isSymbol (x : Lexeme) (s : Symbol) : Bool := x.token == .symbol s

/-- Whether the lexeme is the reserved word `k`. -/
def isKeyword (x : Lexeme) (k : Keyword) : Bool :=
  match x.token with
  | .keyword l _ => l == k
  | _ => false

end Lexeme

/-- A column or segment of a path as query text: reserved words stand between backticks. -/
def escapeName (name : String) : String :=
  if (Keyword.ofName? name).isSome then "\x60" ++ name ++ "\x60" else name

end JsonTables
