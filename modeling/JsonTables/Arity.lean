/-
  JsonTables.Arity — how many arguments a function takes.
-/

namespace JsonTables

structure Arity where
  least : Nat
  /-- The greatest number, if there is one. -/
  most : Option Nat
  deriving DecidableEq, Repr

namespace Arity

def accepts (a : Arity) (count : Nat) : Bool :=
  a.least ≤ count && match a.most with
    | some most => count ≤ most
    | none => true

/-- What a message says of the numbers accepted. -/
def expected (a : Arity) : String :=
  match a.most with
  | none => s!"at least {a.least}"
  | some most => if a.least = most then s!"exactly {a.least}" else s!"{a.least} to {most}"

/-- Whether the last number named is one. -/
def endsInOne (a : Arity) : Bool := (a.most.getD a.least) == 1

/-- The message for a number that is not accepted. -/
def message (a : Arity) (name : String) (count : Nat) : String :=
  let noun := if a.endsInOne then "argument" else "arguments"
  s!"{name}() takes {a.expected} {noun}, got {count}"

end Arity

end JsonTables
