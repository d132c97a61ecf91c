/-
  JsonTables.Json.Writer — JSON text of a value, all in ASCII: on one line, or with every item on a line
  of its own. Numbers that JSON has no form for are written `NaN`, `Infinity` and `-Infinity`.
-/

import JsonTables.Text.Quoted
import JsonTables.Value.Basic

namespace JsonTables.Json

/-- How numbers are laid out in JSON text. -/
def numberLayout : Binary64.Layout := { Binary64.plain with infinity := "Infinity", nan := "NaN" }

/-- An escape by the hexadecimal number of a 16-bit unit. -/
def unitEscape (n : Nat) : List Char := '\\' :: 'u' :: Text.hexDigits 4 n

/-- One character inside a string; beyond the 16-bit units it takes a pair of them. -/
def escapeChar (c : Char) : List Char :=
  if c = '\x22' then ['\\', '\x22']
  else if c = '\\' then ['\\', '\\']
  else if c = '\n' then ['\\', 'n']
  else if c = '\r' then ['\\', 'r']
  else if c = '\t' then ['\\', 't']
  else if c = '\x0c' then ['\\', 'f']
  else if c = '\x08' then ['\\', 'b']
  else if 0x20 ≤ c.toNat ∧ c.toNat ≤ 0x7e then [c]
  else if c.toNat < 0x10000 then unitEscape c.toNat
  else
    let n := c.toNat - 0x10000
    unitEscape (0xd800 + n / 0x400) ++ unitEscape (0xdc00 + n % 0x400)

/-- A text as a JSON string. -/
def string (s : String) : String :=
  String.ofList ('\x22' :: s.toList.flatMap escapeChar ++ ['\x22'])

/-- A number as JSON text. -/
def number : Number → String
  | .int n => toString n
  | .float x => numberLayout.text x

/-- Where the items of a list or mapping stand: on one line, or each on its own, so many blanks further
in than what holds them. -/
inductive Style where
  | line
  | indented (step : Nat)
  deriving DecidableEq, Repr

/-- The start of a line at a depth. -/
def lineStart (step depth : Nat) : String := "\n" ++ String.ofList (List.replicate (step * depth) ' ')

/-- Written items between brackets; without items the brackets stand together. -/
def enclose (style : Style) (depth : Nat) (opening closing : String) (items : List String) : String :=
  if items.isEmpty then opening ++ closing
  else match style with
    | .line => opening ++ ", ".intercalate items ++ closing
    | .indented step =>
      let start := lineStart step (depth + 1)
      opening ++ start ++ ("," ++ start).intercalate items ++ lineStart step depth ++ closing

mutual

/-- The JSON text of a value that stands at a depth. -/
def write (style : Style) (depth : Nat) : Value → String
  | .null => "null"
  | .bool b => if b then "true" else "false"
  | .number n => number n
  | .text s => string s
  | .list items => enclose style depth "[" "]" (writeItems style (depth + 1) items)
  | .map entries => enclose style depth "\x7b" "\x7d" (writeEntries style (depth + 1) entries)

def writeItems (style : Style) (depth : Nat) : List Value → List String
  | [] => []
  | v :: rest => write style depth v :: writeItems style depth rest

def writeEntries (style : Style) (depth : Nat) : List (String × Value) → List String
  | [] => []
  | (key, v) :: rest =>
    (string key ++ ": " ++ write style depth v) :: writeEntries style depth rest

end

/-- JSON text on one line. -/
def compact (v : Value) : String := write .line 0 v

/-- JSON text with each item on its own line. -/
def pretty (v : Value) : String := write (.indented 2) 0 v

end JsonTables.Json
