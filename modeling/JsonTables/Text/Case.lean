/-
  JsonTables.Text.Case — upper case, lower case and case folding by the full mappings of Unicode, so a
  character may become several. A capital sigma that ends a word becomes the final small sigma.
-/

import JsonTables.Text.CaseTable

namespace JsonTables.Text

/-- The character to which a run moves `c`, if `c` is one of its members. -/
def CaseRun.move? (run : CaseRun) (c : Char) : Option Char :=
  let n := c.toNat
  if run.first ≤ n ∧ n ≤ run.last ∧ (n - run.first) % run.step = 0 then
    some (Char.ofNat (n + run.shift).toNat)
  else none

/-- The mapping that runs and expansions describe; a character that neither mentions stays. -/
def mapCase (runs : List CaseRun) (expansions : List CaseExpansion) (c : Char) : List Char :=
  match runs.findSome? (CaseRun.move? · c) with
  | some d => [d]
  | none =>
    match expansions.find? (·.source == c.toNat) with
    | some e => e.targets.map Char.ofNat
    | none => [c]

/-- Upper case of one character. -/
def upperChar (c : Char) : List Char :=
  if c.toNat < 0x80 then [c.toUpper] else mapCase upperRuns upperExpansions c

/-- Lower case of one character, out of context. -/
def lowerChar (c : Char) : List Char :=
  if c.toNat < 0x80 then [c.toLower] else mapCase lowerRuns lowerExpansions c

/-- Case folding of one character. -/
def foldChar (c : Char) : List Char :=
  if c.toNat < 0x80 then [c.toLower] else mapCase foldRuns foldExpansions c

/-- Whether the nearest character that counts is a letter with case. -/
def meetsLetter (cs : List Char) : Bool :=
  match cs.dropWhile fun c => CodeSpan.anyContains caseIgnorableSpans c.toNat with
  | c :: _ => CodeSpan.anyContains casedSpans c.toNat
  | [] => false

/-- Lower case in context: `before` holds what came before, nearest first. -/
def lowerFrom (before : List Char) : List Char → List Char
  | [] => []
  | c :: rest =>
    (if c = 'Σ' then [if meetsLetter before && !meetsLetter rest then 'ς' else 'σ'] else lowerChar c)
      ++ lowerFrom (c :: before) rest

/-- Upper case of a text. -/
def upper (s : String) : String := String.ofList (s.toList.flatMap upperChar)

/-- Lower case of a text. -/
def lower (s : String) : String := String.ofList (lowerFrom [] s.toList)

/-- A text with all distinctions of case removed. -/
def fold (s : String) : String := String.ofList (s.toList.flatMap foldChar)

end JsonTables.Text
