/-
  JsonTables.Binary64.Shortest — the decimal text of a number: the fewest digits that read back as the
  number, of these the ones nearest to it, laid out as a format wants them.
-/

import JsonTables.Binary64.Basic

namespace JsonTables.Binary64

/-- The decimal `digits * 10 ^ exponent`. -/
structure Decimal where
  digits : Nat
  exponent : Int
  deriving DecidableEq, Repr

/-- Whether reading the decimal gives back the number `x`, its sign apart. -/
def Decimal.readsAs (d : Decimal) (x : Binary64) : Bool :=
  ofDecimal x.isNegative d.digits d.exponent == x

/-- Without zeros at the end; the fuel bounds how many go. -/
def Decimal.trimZeros : Nat → Decimal → Decimal
  | 0, d => d
  | n + 1, d =>
    if d.digits ≠ 0 ∧ d.digits % 10 = 0 then trimZeros n ⟨d.digits / 10, d.exponent + 1⟩ else d

/-- How many decimal digits a natural number has. -/
def digitCount (n : Nat) : Nat := (Nat.toDigits 10 n).length

/-- The least `k` with `num / den < 10 ^ k`, for a positive ratio. -/
def decimalScale (num den : Nat) : Int :=
  if den ≤ num then digitCount (num / den)
  else
    let zeros := digitCount (den / num) - 1
    if num * Nat.pow 10 zeros < den then -(zeros : Int) else 1 - (zeros : Int)

/-- The two neighbours of `num / den` on the grid of `10 ^ exponent`, the nearer first; of two equally
near the even one. -/
def neighbours (num den : Nat) (exponent : Int) : List Decimal :=
  let n := num * Nat.pow 10 (-exponent).toNat
  let d := den * Nat.pow 10 exponent.toNat
  let low := n / d
  match compare (2 * (n % d)) d with
  | .lt => [⟨low, exponent⟩, ⟨low + 1, exponent⟩]
  | .gt => [⟨low + 1, exponent⟩, ⟨low, exponent⟩]
  | .eq => if low % 2 = 0 then [⟨low, exponent⟩, ⟨low + 1, exponent⟩]
    else [⟨low + 1, exponent⟩, ⟨low, exponent⟩]

/-- The exact decimal of `significand * 2 ^ exponent`. -/
def exactDecimal (significand : Nat) (exponent : Int) : Decimal :=
  ⟨significand * Nat.pow 2 exponent.toNat * Nat.pow 5 (-exponent).toNat, min exponent 0⟩

/-- Seventeen digits identify every number. -/
def mostDigits : Nat := 17

/-- The shortest decimal that reads back as `x`, none for an infinity and for what is not a number. -/
def shortest? (x : Binary64) : Option Decimal :=
  match x with
  | finite _ m e _ =>
    if m = 0 then some ⟨0, 0⟩
    else
      let num := m * Nat.pow 2 e.toNat
      let den := Nat.pow 2 (-e).toNat
      let scale := decimalScale num den
      let found := (List.range mostDigits).findSome? fun (i : Nat) =>
        (neighbours num den (scale - (i + 1))).find? (·.readsAs x)
      some ((found.getD (exactDecimal m e)).trimZeros mostDigits)
  | _ => none

/-! ## Layout -/

/-- How a format lays a number out. -/
structure Layout where
  /-- The least decimal exponent that is written positionally. -/
  leastPositional : Int
  /-- The first exponent that is no longer written positionally. -/
  firstScientific : Int
  /-- The least number of digits of a written exponent. -/
  exponentWidth : Nat
  /-- The text of positive infinity. -/
  infinity : String
  /-- The text of what is not a number. -/
  nan : String

/-- A text with zeros in front up to a width. -/
def padZeros (width : Nat) (s : String) : String :=
  String.ofList (List.replicate (width - s.length) '0') ++ s

/-- The magnitude of a decimal, with at least one digit behind a point that is written. -/
def Layout.magnitude (layout : Layout) (d : Decimal) : String :=
  let digits := Nat.toDigits 10 d.digits
  let exponent := d.exponent + digits.length - 1
  if layout.leastPositional ≤ exponent ∧ exponent < layout.firstScientific then
    if exponent < 0 then
      "0." ++ padZeros (digits.length + (-exponent).toNat - 1) (String.ofList digits)
    else
      let whole := (exponent + 1).toNat
      let zeros := List.replicate (whole - digits.length) '0'
      let fraction := digits.drop whole
      String.ofList (digits.take whole ++ zeros) ++ "." ++
        (if fraction.isEmpty then "0" else String.ofList fraction)
  else
    let first := String.ofList (digits.take 1)
    let rest := digits.drop 1
    (if rest.isEmpty then first else first ++ "." ++ String.ofList rest) ++
      (if exponent < 0 then "e-" else "e+") ++
      padZeros layout.exponentWidth (toString exponent.natAbs)

/-- The text of a number. -/
def Layout.text (layout : Layout) (x : Binary64) : String :=
  let sign := if x.isNegative then "-" else ""
  match x.shortest? with
  | some d => sign ++ layout.magnitude d
  | none => if x.isNan then layout.nan else sign ++ layout.infinity

/-- Values are written positionally from 0.0001 up to, not including, 10 ^ 16. -/
def plain : Layout := ⟨-4, 16, 2, "inf", "nan"⟩

end JsonTables.Binary64
