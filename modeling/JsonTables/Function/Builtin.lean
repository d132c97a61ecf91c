/-
  JsonTables.Function.Builtin — the functions and constants that every query can use.
-/

import JsonTables.Function.Basic
import JsonTables.Function.OfGroup

namespace JsonTables

namespace Function

/-- A function of so many arguments. -/
def plain (least most : Nat) (run : List Value → Except Fault Value) : Function :=
  ⟨⟨least, some most⟩, false, run⟩

/-- A function of a group, of at least so many arguments where there is no group. -/
def grouped (least : Nat) (run : List Value → Except Fault Value) : Function :=
  ⟨⟨least, none⟩, true, run⟩

/-- A function of one number that the machine computes. -/
def machine (f : Binary64 → Binary64) : Function := plain 1 1 (ofNumber (Number.apply f))

def builtins : List (String × Function) :=
  [("upper", plain 1 1 (ofText Text.upper)),
    ("lower", plain 1 1 (ofText Text.lower)),
    ("initcap", plain 1 1 (ofText capitalize)),
    ("trim", plain 1 1 (ofText (onCharacters Text.trim))),
    ("ltrim", plain 1 1 (ofText (onCharacters Text.trimStart))),
    ("rtrim", plain 1 1 (ofText (onCharacters Text.trimEnd))),
    ("length", plain 1 1 length),
    ("substr", plain 2 3 substring),
    ("replace", plain 3 3 replace),
    ("instr", plain 2 2 position),
    ("contains", plain 2 2 containsText),
    ("concat", ⟨⟨1, none⟩, false, concat⟩),
    ("abs", plain 1 1 (ofNumber fun n => .ok n.abs)),
    ("ceil", plain 1 1 (ofNumber fun n => n.ceil.map .int)),
    ("floor", plain 1 1 (ofNumber fun n => n.floor.map .int)),
    ("sqrt", machine Binary64.sqrt),
    ("exp", machine Binary64.exp),
    ("log", plain 1 1 (ofNumber (Number.logarithm Binary64.log))),
    ("log10", plain 1 1 (ofNumber (Number.logarithm Binary64.log10))),
    ("sin", machine Binary64.sin),
    ("cos", machine Binary64.cos),
    ("tan", machine Binary64.tan),
    ("round", plain 1 2 round),
    ("pow", plain 2 2 power),
    ("power", plain 2 2 power),
    ("mod", plain 2 2 modulo),
    ("sum", grouped 1 sum),
    ("count", grouped 0 count),
    ("avg", grouped 1 average),
    ("min", grouped 1 (extreme .lt)),
    ("max", grouped 1 (extreme .gt)),
    ("coalesce", grouped 1 coalesce)]

end Function

/-- The ratio of a circle's circumference to its diameter, and the base of natural logarithms. -/
def builtinConstants : List (String × Value) :=
  [("pi", .number (.float (.ofDecimal false 3141592653589793 (-15)))),
    ("e", .number (.float (.ofDecimal false 2718281828459045 (-15))))]

/-- The registry of a query that nothing was added to. -/
def Registry.builtin : Registry := ⟨Function.builtins, builtinConstants⟩

end JsonTables
