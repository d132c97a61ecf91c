/-
  JsonTables.Binary64.Basic — numbers in the 64-bit binary format, as signs, significands and exponents
  in canonical form, and the rounding of an exact ratio to the nearest of them, ties to the even
  significand. Every operation of this folder computes exactly and rounds once.
-/

namespace JsonTables

/-- The one form in which each magnitude `significand * 2 ^ exponent` is written: normal with 53 bits,
or subnormal at the least exponent. -/
def Binary64.Canonical (significand : Nat) (exponent : Int) : Prop :=
  (significand < Nat.pow 2 52 ∧ exponent = -1074) ∨
    (Nat.pow 2 52 ≤ significand ∧ significand < Nat.pow 2 53 ∧ -1074 ≤ exponent ∧ exponent ≤ 971)

instance (m : Nat) (e : Int) : Decidable (Binary64.Canonical m e) :=
  inferInstanceAs (Decidable ((m < Nat.pow 2 52 ∧ e = -1074) ∨
    (Nat.pow 2 52 ≤ m ∧ m < Nat.pow 2 53 ∧ -1074 ≤ e ∧ e ≤ 971)))

/-- A number in the 64-bit binary format; all that is not a number counts as one. -/
inductive Binary64 where
  | finite (negative : Bool) (significand : Nat) (exponent : Int)
      (canonical : Binary64.Canonical significand exponent)
  | infinity (negative : Bool)
  | nan
  deriving DecidableEq

namespace Binary64

/-- Zero of either sign. -/
def zero (negative : Bool) : Binary64 := finite negative 0 (-1074) (Or.inl ⟨by decide, rfl⟩)

/-- The exact value, none for an infinity and for what is not a number. -/
def value? : Binary64 → Option Rat
  | finite negative m e _ =>
    let n : Int := (m * Nat.pow 2 e.toNat : Nat)
    some (mkRat (if negative then -n else n) (Nat.pow 2 (-e).toNat))
  | _ => none

def isNan : Binary64 → Bool
  | nan => true
  | _ => false

def isInfinite : Binary64 → Bool
  | infinity _ => true
  | _ => false

def isFinite (x : Binary64) : Bool := x.value?.isSome

/-- Whether the sign is set, also that of a zero. -/
def isNegative : Binary64 → Bool
  | finite negative _ _ _ => negative
  | infinity negative => negative
  | nan => false

/-- Zero of either sign. -/
def isZero (x : Binary64) : Bool := x.value? == some 0

/-- The integer that the number is, if it is one. -/
def integer? (x : Binary64) : Option Int := x.value?.bind fun q => if q.den = 1 then some q.num else none

/-! ## Rounding -/

/-- The quotient to the nearest natural number, a half to the even one. -/
def roundQuotient (num den : Nat) : Nat :=
  let q := num / den
  match compare (2 * (num % den)) den with
  | .lt => q
  | .eq => q + q % 2
  | .gt => q + 1

/-- The greatest `k` with `2 ^ k ≤ num / den`, for a positive ratio. -/
def floorLog2 (num den : Nat) : Int :=
  let k : Int := (num.log2 : Int) - den.log2
  if num * Nat.pow 2 (-k).toNat < den * Nat.pow 2 k.toNat then k - 1 else k

/-- The exponent of the grid on which the ratio is rounded: 53 bits, fewer near zero. -/
def gridExponent (num den : Nat) : Int :=
  if num = 0 then -1074 else max (-1074) (floorLog2 num den - 52)

/-- The number `significand * 2 ^ exponent` if it has a canonical form, and else an infinity. -/
def pack (negative : Bool) (significand : Nat) (exponent : Int) : Binary64 :=
  if h : Canonical significand exponent then finite negative significand exponent h
  else infinity negative

/-- The number nearest to `num / den` with the given sign; beyond the greatest, an infinity. -/
def ofRatio (negative : Bool) (num den : Nat) : Binary64 :=
  let e := gridExponent num den
  let m := roundQuotient (num * Nat.pow 2 (-e).toNat) (den * Nat.pow 2 e.toNat)
  if m = Nat.pow 2 53 then pack negative (Nat.pow 2 52) (e + 1) else pack negative m e

/-- The number nearest to `q`; the sign given is that of an exact zero. -/
def round (negative : Bool) (q : Rat) : Binary64 :=
  ofRatio (if q.num = 0 then negative else q.num < 0) q.num.natAbs q.den

/-- The number nearest to an integer. -/
def ofInt (n : Int) : Binary64 := ofRatio (n < 0) n.natAbs 1

/-- A bound on the powers of ten that matter: every decimal of more digits before its point is beyond
the greatest number, and one of more zeros behind it is nearer to zero than to any other. -/
def decimalReach : Int := 400

/-- The number nearest to `digits * 10 ^ exponent`. -/
def ofDecimal (negative : Bool) (digits : Nat) (exponent : Int) : Binary64 :=
  if digits = 0 then zero negative
  else
    let places : Int := exponent + (Nat.toDigits 10 digits).length
    if places > decimalReach then infinity negative
    else if places < -decimalReach then zero negative
    else ofRatio negative (digits * Nat.pow 10 exponent.toNat) (Nat.pow 10 (-exponent).toNat)

/-! ## Interchange form -/

/-- The 64 bits of the number. -/
def toBits : Binary64 → Nat
  | finite negative m e _ =>
    (if negative then Nat.pow 2 63 else 0) +
      (if m < Nat.pow 2 52 then m else (e + 1075).toNat * Nat.pow 2 52 + (m - Nat.pow 2 52))
  | infinity negative => (if negative then Nat.pow 2 63 else 0) + 2047 * Nat.pow 2 52
  | nan => 2047 * Nat.pow 2 52 + Nat.pow 2 51

/-- The number with these 64 bits. -/
def ofBits (bits : Nat) : Binary64 :=
  let negative := bits / Nat.pow 2 63 % 2 == 1
  let field : Nat := bits / Nat.pow 2 52 % Nat.pow 2 11
  let fraction := bits % Nat.pow 2 52
  if field = 2047 then (if fraction = 0 then infinity negative else nan)
  else if field = 0 then pack negative fraction (-1074)
  else pack negative (Nat.pow 2 52 + fraction) ((field : Int) - 1075)

end Binary64

end JsonTables
