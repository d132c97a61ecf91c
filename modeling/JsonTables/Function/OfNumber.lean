/-
  JsonTables.Function.OfNumber — functions that work on the numbers of their arguments. A function of
  the machine that has no result gives null; rounding and remainder fail with their fault.
-/

import JsonTables.Function.OfText

namespace JsonTables.Function

/-- A number as a value, integers without a point. -/
def normal (n : Number) : Value := .number n.normalize

/-- The number that a computation gives, null if it fails. -/
def orNull (r : Except Fault Number) : Except Fault Value :=
  match r with
  | .ok n => .ok (normal n)
  | .error _ => .ok .null

/-- A function of the first argument's number that is null where it has no result. -/
def ofNumber (f : Number → Except Fault Number) (args : List Value) : Except Fault Value :=
  orNull (do f (← numberAt args 0))

def power (args : List Value) : Except Fault Value :=
  orNull (do (← numberAt args 0).pow (← numberAt args 1))

/-- The number to a fraction by this factor, a half away from zero. -/
def roundTo (value factor : Number) : Except Fault Number := do
  let scaled ← value.mul factor
  let half := Number.float (Binary64.ofRatio false 1 2)
  let magnitude ← (← scaled.abs.add half).floor
  let rounded := Number.int (if scaled.isBelowZero then -magnitude else magnitude)
  rounded.div factor

def round (args : List Value) : Except Fault Value := do
  let places ← if 1 < args.length then (← numberAt args 1).truncate else pure 0
  let factor ← Number.tenTo places
  return normal (← roundTo (← numberAt args 0) factor)

/-- The remainder towards zero; a zero divisor leaves the dividend as it is. -/
def modulo (args : List Value) : Except Fault Value := do
  let b ← numberAt args 1
  let a ← numberAt args 0
  if b.isZero then return .number a else (a.rem b).map normal

end JsonTables.Function
