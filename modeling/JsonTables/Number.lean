/-
  JsonTables.Number — the numbers of the query language: integers of any size and binary numbers.
  Integers compute exactly among themselves; beside a binary number an integer is rounded to one,
  which fails beyond the range of the format. Comparison is exact throughout. Between texts and integers
  there is a limit: integers of more digits are neither written nor read.
-/

import JsonTables.Binary64.Arithmetic
import JsonTables.Binary64.Shortest

namespace JsonTables

/-- The most digits of an integer that is written or read. -/
def maxDigits : Nat := 4300

/-- The ways in which computing with numbers fails. -/
inductive Fault where
  /-- The result, or an operand on its way to the binary format, is out of range. -/
  | overflow
  /-- The operation is not defined at its operands. -/
  | domain
  /-- The divisor is zero. -/
  | zeroDivisor
  /-- An integer has too many digits to be written or read. -/
  | digits
  deriving DecidableEq, Repr

inductive Number where
  | int (n : Int)
  | float (x : Binary64)
  deriving DecidableEq

namespace Number

/-- The exact value, none for an infinity and for what is not a number. -/
def value? : Number → Option Rat
  | int n => some n
  | float x => x.value?

/-- The number as a binary number; an integer beyond the range of the format has none. -/
def toBinary64 : Number → Except Fault Binary64
  | float x => .ok x
  | int n =>
    let x := Binary64.ofInt n
    if x.isInfinite then .error .overflow else .ok x

/-- A binary number that is an integer becomes that integer. -/
def normalize : Number → Number
  | int n => int n
  | float x => match x.integer? with
    | some n => int n
    | none => float x

/-! ## Order -/

/-- Where a number lies: below all finite numbers, at one, or above them all. -/
def rank : Number → Int
  | int _ => 0
  | float x => if x.isInfinite then (if x.isNegative then -1 else 1) else 0

/-- Which of two numbers is less, by their exact values. -/
def compare (a b : Number) : Ordering :=
  if a.rank < b.rank then .lt
  else if b.rank < a.rank then .gt
  else
    let p := a.value?.getD 0
    let q := b.value?.getD 0
    if p < q then .lt else if q < p then .gt else .eq

def isZero (a : Number) : Bool := a.value? == some 0

/-- Whether the number is less than zero. -/
def isBelowZero (a : Number) : Bool := a.compare (int 0) == .lt

/-! ## Arithmetic -/

/-- Two numbers combined: integers by the first operation, and all others by the second. -/
def combine (exact : Int → Int → Int) (rounded : Binary64 → Binary64 → Binary64) :
    Number → Number → Except Fault Number
  | int a, int b => .ok (int (exact a b))
  | a, b => do return float (rounded (← a.toBinary64) (← b.toBinary64))

def add : Number → Number → Except Fault Number := combine (· + ·) Binary64.add
def sub : Number → Number → Except Fault Number := combine (· - ·) Binary64.sub
def mul : Number → Number → Except Fault Number := combine (· * ·) Binary64.mul

/-- The quotient. That of two integers is their exact ratio, rounded once. -/
def div : Number → Number → Except Fault Number
  | int a, int b =>
    if b = 0 then .error .zeroDivisor
    else
      let x := Binary64.ofRatio ((a < 0) != (b < 0)) a.natAbs b.natAbs
      if x.isInfinite then .error .overflow else .ok (float x)
  | a, b => do
    let x ← a.toBinary64
    let y ← b.toBinary64
    if y.isZero then .error .zeroDivisor else return float (x.div y)

/-- The remainder of the division towards zero, computed on binary numbers. -/
def rem (a b : Number) : Except Fault Number := do
  let x ← a.toBinary64
  let y ← b.toBinary64
  let r := x.rem y
  if r.isNan && !x.isNan && !y.isNan then .error .domain else return float r

def neg : Number → Number
  | int n => int (-n)
  | float x => float x.neg

def abs : Number → Number
  | int n => int n.natAbs
  | float x => float x.abs

/-- An integer made of the exact value of a number; an infinity is out of range. -/
def toInteger (pick : Rat → Int) : Number → Except Fault Int
  | int n => .ok n
  | float x => match x.value? with
    | some q => .ok (pick q)
    | none => .error (if x.isNan then .domain else .overflow)

/-- The greatest integer that is not greater. -/
def floor (a : Number) : Except Fault Int := a.toInteger Rat.floor

/-- The least integer that is not less. -/
def ceil (a : Number) : Except Fault Int := a.toInteger fun q => -(-q).floor

/-- The integer part. -/
def truncate (a : Number) : Except Fault Int := a.toInteger Binary64.truncate

/-- Ten to an integer power: an integer, or a binary number if the power is negative. -/
def tenTo (n : Int) : Except Fault Number :=
  if 0 ≤ n then .ok (int (Nat.pow 10 n.toNat))
  else do return float (Binary64.pow (Binary64.ofInt 10) (← (int n).toBinary64))

/-! ## Functions of the machine -/

/-- A result is refused where a proper argument gives what is not a number, or a finite one an
infinity. -/
def checked (arguments : List Binary64) (result : Binary64) : Except Fault Number :=
  if result.isNan && arguments.all (!·.isNan) then .error .domain
  else if result.isInfinite && arguments.all (·.isFinite) then .error .overflow
  else .ok (float result)

/-- A function of one binary number. -/
def apply (f : Binary64 → Binary64) (a : Number) : Except Fault Number := do
  let x ← a.toBinary64
  checked [x] (f x)

/-- The power `a ^ b` of binary numbers. -/
def pow (a b : Number) : Except Fault Number := do
  let x ← a.toBinary64
  let y ← b.toBinary64
  checked [x, y] (x.pow y)

/-- A positive integer as `fraction * 2 ^ exponent` with the fraction between a half and one. -/
def splitExponent (n : Nat) : Binary64 × Nat :=
  let length := n.log2 + 1
  let x := Binary64.ofRatio false n (Nat.pow 2 length)
  if x == Binary64.ofInt 1 then (Binary64.ofRatio false 1 2, length + 1) else (x, length)

/-- A logarithm. Integers beyond the range of the format are split into a fraction and a power of two,
whose logarithms add up. -/
def logarithm (log : Binary64 → Binary64) (a : Number) : Except Fault Number :=
  match a, a.toBinary64 with
  | int n, .error _ =>
    if n ≤ 0 then .error .domain
    else
      let (x, e) := splitExponent n.toNat
      .ok (float ((log x).add ((log (Binary64.ofInt 2)).mul (Binary64.ofInt e))))
  | _, .error fault => .error fault
  | _, .ok x => if x.isZero then .error .domain else checked [x] (log x)

/-! ## Text -/

/-- The decimal text of a number. -/
def text : Number → String
  | int n => toString n
  | float x => Binary64.plain.text x

/-- Whether a number can be written where integers have so many digits at most. Binary numbers always can. -/
def withinDigits (limit : Nat) : Number → Bool
  | int n => (Nat.toDigits 10 n.natAbs).length ≤ limit
  | float _ => true

end Number

end JsonTables
