/-
  JsonTables.Value.Order — comparison of values: as numbers where both are numbers, and else as texts
  without regard to case. Sorting tells texts that differ in case alone apart. Values fall into one group
  by their keys: numbers and numerals by their exact value, null apart from the empty text.
-/

import JsonTables.Value.Coercion

namespace JsonTables

namespace Value

/-- Texts by their code points. -/
def compareText (s t : String) : Ordering := if s < t then .lt else if t < s then .gt else .eq

/-- The comparison of conditions. -/
def compare (a b : Value) : Ordering :=
  match a.number?, b.number? with
  | some m, some n => m.compare n
  | _, _ => compareText (Text.fold a.asText) (Text.fold b.asText)

/-- The comparison of sorting, ranking and extremes. -/
def sortCompare (a b : Value) : Ordering :=
  match a.compare b with
  | .eq =>
    if a.number?.isSome && b.number?.isSome then .eq else compareText a.asText b.asText
  | o => o

def equal (a b : Value) : Bool := a.compare b == .eq

end Value

/-- The key of a group; numbers are normalised, so that equal numbers have one key. -/
inductive Key where
  | null
  | number (n : Number)
  | text (s : String)
  deriving DecidableEq

/-- The key of a value. -/
def Value.key : Value → Key
  | .null => .null
  | v => match v.number? with
    | some n => .number n.normalize
    | none => .text v.asText

/-- The key of a value, if no integer has to be read or written for it that has too many digits. -/
def Value.toKey : Value → Except Fault Key
  | .null => .ok .null
  | v => do
    match ← v.toNumber with
    | some n => return .number n.normalize
    | none => return .text (← v.toText)

end JsonTables
