/-
  JsonTables.Binary64.Arithmetic — sum, difference, product, quotient and remainder: the exact result,
  rounded once. Where there is no exact result, an infinity or nothing that is a number comes out. Square
  root, exponential, logarithms, circular functions and powers are computed by the machine on the
  interchange form.
-/

import JsonTables.Binary64.Basic

namespace JsonTables.Binary64

def neg : Binary64 → Binary64
  | finite negative m e h => finite (!negative) m e h
  | infinity negative => infinity (!negative)
  | nan => nan

def abs : Binary64 → Binary64
  | finite _ m e h => finite false m e h
  | infinity _ => infinity false
  | nan => nan

/-- The sum. An exact zero is negative only if both terms are. -/
def add (x y : Binary64) : Binary64 :=
  match x, y with
  | nan, _ | _, nan => nan
  | infinity a, infinity b => if a = b then infinity a else nan
  | infinity a, _ => infinity a
  | _, infinity b => infinity b
  | finite .., finite .. =>
    round (x.isNegative && y.isNegative) (x.value?.getD 0 + y.value?.getD 0)

def sub (x y : Binary64) : Binary64 := add x (neg y)

/-- The product; infinity times zero is not a number. -/
def mul (x y : Binary64) : Binary64 :=
  let negative := x.isNegative != y.isNegative
  if x.isNan || y.isNan then nan
  else if x.isInfinite || y.isInfinite then
    if x.isZero || y.isZero then nan else infinity negative
  else round negative (x.value?.getD 0 * y.value?.getD 0)

/-- The quotient by a divisor that is not zero; infinity by infinity is not a number. -/
def div (x y : Binary64) : Binary64 :=
  let negative := x.isNegative != y.isNegative
  if x.isNan || y.isNan then nan
  else if x.isInfinite then
    if y.isInfinite then nan else infinity negative
  else if y.isInfinite then zero negative
  else round negative (x.value?.getD 0 / y.value?.getD 0)

/-- The quotient's part towards zero. -/
def truncate (q : Rat) : Int := q.num.tdiv q.den

/-- The remainder of the quotient truncated towards zero, which has the sign of the dividend and is
exact. An infinite dividend has none. -/
def rem (x y : Binary64) : Binary64 :=
  match x.value?, y.value? with
  | some a, some b => round x.isNegative (a - b * truncate (a / b))
  | some _, none => if y.isInfinite then x else nan
  | none, _ => nan

/-! ## Functions of the machine -/

/-- The machine's number with the same bits. -/
def toFloat (x : Binary64) : Float := Float.ofBits x.toBits.toUInt64

/-- The number with the bits of a machine number. -/
def ofFloat (x : Float) : Binary64 := ofBits x.toBits.toNat

def sqrt (x : Binary64) : Binary64 := ofFloat x.toFloat.sqrt
def exp (x : Binary64) : Binary64 := ofFloat x.toFloat.exp
def log (x : Binary64) : Binary64 := ofFloat x.toFloat.log
def log10 (x : Binary64) : Binary64 := ofFloat x.toFloat.log10
def sin (x : Binary64) : Binary64 := ofFloat x.toFloat.sin
def cos (x : Binary64) : Binary64 := ofFloat x.toFloat.cos
def tan (x : Binary64) : Binary64 := ofFloat x.toFloat.tan
def pow (x y : Binary64) : Binary64 := ofFloat (x.toFloat.pow y.toFloat)

end JsonTables.Binary64
