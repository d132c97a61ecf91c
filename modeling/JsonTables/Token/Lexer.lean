/-
  JsonTables.Token.Lexer — query text as tokens. Blanks, line ends and comments from `--` to the end of
  the line stand between tokens. At each place one piece is taken, the longest of its kind. An integer of
  too many digits is refused.
-/

import JsonTables.Number
import JsonTables.Numeral
import JsonTables.QueryError
import JsonTables.Token.Basic

namespace JsonTables.Token

/-- What stands at the front of a text: a token, or something between tokens with its line ends. -/
inductive Piece where
  | token (t : Token)
  | gap (lines : Nat)
  deriving DecidableEq

/-! ## Numbers -/

/-- The number in front of a text that starts with a digit, and its length: binary if it has digits
behind a point or a power of ten. -/
def number (cs : List Char) : Token × Nat :=
  let (whole, rest) := Numeral.digits cs
  let (fraction, rest) := match Numeral.fraction? rest with
    | (some (d :: ds), behind) => (some (d :: ds), behind)
    | _ => (none, rest)
  let (exponent, rest) := Numeral.exponent? rest
  let n : Numeral := ⟨false, whole, fraction, exponent⟩
  (if n.isInteger then integer (Text.ofDigits whole) else float n.toBinary64,
    cs.length - rest.length)

/-! ## Texts -/

/-- The place of the closing quote behind an opening one. A backslash takes the next character with it,
and two quotes stand for one of the text; but where no single quote follows, the last pair closes the
text with its first. `n` counts the characters read and `pair` is the place of the last pair. -/
def closing? (quote : Char) (n : Nat) (pair : Option Nat) : List Char → Option Nat
  | [] => pair
  | [c] => if c = quote then some n else pair
  | c :: d :: rest =>
    if c = '\\' then
      if d = '\n' then pair else closing? quote (n + 2) pair rest
    else if c = quote then
      if d = quote then closing? quote (n + 2) (some n) rest else some n
    else closing? quote (n + 1) pair (d :: rest)

/-- Two quotes become one, from left to right. -/
def mergeQuotes (quote : Char) : List Char → List Char
  | c :: d :: rest =>
    if c = quote ∧ d = quote then quote :: mergeQuotes quote rest
    else c :: mergeQuotes quote (d :: rest)
  | cs => cs

/-- A backslash goes and what follows it stays. -/
def dropBackslashes : List Char → List Char
  | '\\' :: c :: rest => c :: dropBackslashes rest
  | c :: rest => c :: dropBackslashes rest
  | [] => []

/-- The text that is written between quotes. -/
def textBetween (quote : Char) (body : List Char) : String :=
  String.ofList (dropBackslashes (mergeQuotes quote body))

/-! ## Names -/

/-- Whether the character may stand in a name. -/
def isNameChar (c : Char) : Bool := c.isAlphanum || c = '_'

/-- A name, or the reserved word that it is. -/
def ofName (name : String) : Token :=
  match Keyword.ofName? name with
  | some k => keyword k name
  | none => identifier name

/-! ## Pieces -/

/-- The symbol that `c` starts, and how many characters of `rest` belong to it. -/
def symbol? (c : Char) (rest : List Char) : Option (Symbol × Nat) :=
  match c, rest with
  | '!', '=' :: _ => some (.notEqual, 1)
  | '<', '>' :: _ => some (.unequal, 1)
  | '<', '=' :: _ => some (.lessEqual, 1)
  | '<', _ => some (.less, 0)
  | '>', '=' :: _ => some (.greaterEqual, 1)
  | '>', _ => some (.greater, 0)
  | '*', _ => some (.star, 0)
  | ',', _ => some (.comma, 0)
  | '.', _ => some (.dot, 0)
  | '(', _ => some (.leftParen, 0)
  | ')', _ => some (.rightParen, 0)
  | '=', _ => some (.equal, 0)
  | ';', _ => some (.semicolon, 0)
  | '+', _ => some (.plus, 0)
  | '-', _ => some (.minus, 0)
  | '/', _ => some (.slash, 0)
  | '%', _ => some (.percent, 0)
  | _, _ => none

/-- The piece that starts with `c`, and how many characters of `rest` belong to it. -/
def piece? (c : Char) (rest : List Char) : Option (Piece × Nat) :=
  if c = ' ' ∨ c = '\t' ∨ c = '\r' then some (.gap 0, 0)
  else if c = '\n' then
    let more := (rest.takeWhile (· = '\n')).length
    some (.gap (more + 1), more)
  else if c = '-' ∧ rest.head? = some '-' then some (.gap 0, (rest.takeWhile (· ≠ '\n')).length)
  else if Text.isDecimal c then
    let (t, length) := number (c :: rest)
    some (.token t, length - 1)
  else if c = '\x27' ∨ c = '\x22' then
    (closing? c 0 none rest).map fun n => (.token (text (textBetween c (rest.take n))), n + 1)
  else if c = '\x60' then
    let name := rest.takeWhile (· ≠ '\x60')
    if name.isEmpty ∨ rest.length = name.length then none
    else some (.token (identifier (String.ofList name)), name.length + 1)
  else if c = '$' ∨ c.isAlpha ∨ c = '_' then
    let name := rest.takeWhile isNameChar
    some (.token (ofName (String.ofList (c :: name))), name.length)
  else (symbol? c rest).map fun (s, n) => (.token (symbol s), n)

/-- Whether a token of so many characters is an integer of more digits than are read. -/
def isOverlong (length : Nat) : Token → Bool
  | integer _ => maxDigits < length
  | _ => false

/-- The tokens of a text that starts at a position and in a line of the whole. -/
def lexFrom (position line : Nat) (cs : List Char) : Except Malformed (List Lexeme) :=
  match cs with
  | [] => .ok []
  | c :: rest =>
    match piece? c rest with
    | none => .error (.illegalCharacter c position)
    | some (.gap lines, n) => lexFrom (position + n + 1) (line + lines) (rest.drop n)
    | some (.token t, n) =>
      if t.isOverlong (n + 1) then .error (.overlong (n + 1))
      else do
        let others ← lexFrom (position + n + 1) line (rest.drop n)
        return ⟨t, position, n + 1, line⟩ :: others
termination_by cs.length
decreasing_by all_goals (simp only [List.length_drop, List.length_cons]; omega)

/-- The tokens of a query text. -/
def lex (text : List Char) : Except Malformed (List Lexeme) := lexFrom 0 1 text

end JsonTables.Token
