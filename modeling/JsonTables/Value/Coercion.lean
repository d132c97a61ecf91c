/-
  JsonTables.Value.Coercion — values read as numbers, as texts and as truth values. Numerals in texts
  count as numbers; truth values, null, lists, mappings and what is not a number do not. Integers of too
  many digits are neither read from a text nor written as one.
-/

import JsonTables.Json.Writer
import JsonTables.Numeral
import JsonTables.Text.Case

namespace JsonTables.Value

/-- A text converted to a number, a binary one if it holds a point or the letter of a power of ten. -/
def convert? (s : String) : Option Number :=
  if s.toList.any (fun c => c = '.' || c = 'e' || c = 'E') then (Numeral.binary64OfText? s).map .float
  else (Numeral.integerOfText? s).map .int

/-- The number that a text denotes, if it is a numeral. -/
def numberOfText? (s : String) : Option Number :=
  if Numeral.isNumeral s then convert? (Text.stripped s) else none

/-- The value as a number. -/
def number? : Value → Option Number
  | number (.float x) => if x.isNan then none else some (.float x)
  | number n => some n
  | text s => numberOfText? s
  | _ => none

/-- Whether a text denotes an integer of more digits than are read; zeros in front count. -/
def isOverlong (s : String) : Bool :=
  maxDigits < s.toList.countP Text.isDecimal &&
    match numberOfText? s with
    | some (.int _) => true
    | _ => false

/-- The value as a number, if it is none of a text of too many digits. -/
def toNumber (v : Value) : Except Fault (Option Number) :=
  match v with
  | text s => if isOverlong s then .error .digits else .ok (numberOfText? s)
  | v => .ok v.number?

/-- The value as a text: null is empty, and a binary number that is an integer shows no point. -/
def asText : Value → String
  | null => ""
  | bool b => if b then "true" else "false"
  | number n => n.normalize.text
  | text s => s
  | v => Json.compact v

/-- The value as a text, if no integer in it has too many digits. -/
def toText (v : Value) : Except Fault String :=
  if v.withinDigits maxDigits then .ok v.asText else .error .digits

/-- Whether a value that stands alone as a condition holds. -/
def isTruthy (v : Value) : Bool :=
  match v with
  | bool b => b
  | v =>
    if v.isMissing then false
    else match v.number? with
      | some n => !n.isZero
      | none => !(["", "false"].contains (Text.lower (Text.stripped v.asText)))

end JsonTables.Value
