/-
  JsonTables.Numeral — decimal numerals as text: an optional sign, digits with an optional point before,
  between or behind them, and an optional power of ten. Digits of every script count, and white space
  around the numeral does not.
-/

import JsonTables.Text.Blank
import JsonTables.Text.Digit
import JsonTables.Binary64.Basic

namespace JsonTables

/-- A numeral in its parts; the digits are given by their values. -/
structure Numeral where
  negative : Bool
  whole : List Nat
  /-- The digits behind the point, if there is one. -/
  fraction : Option (List Nat)
  /-- The power of ten, if one is written. -/
  exponent : Option Int
  deriving DecidableEq, Repr

namespace Numeral

/-- The digits in front of a text, and what follows them. -/
def digits (cs : List Char) : List Nat × List Char :=
  ((cs.takeWhile Text.isDecimal).map Text.digitValue, cs.dropWhile Text.isDecimal)

/-- A sign in front of a text: whether it is a minus, and what follows it. -/
def sign : List Char → Bool × List Char
  | '-' :: rest => (true, rest)
  | '+' :: rest => (false, rest)
  | cs => (false, cs)

/-- A point in front of a text with the digits behind it, and what follows them. -/
def fraction? : List Char → Option (List Nat) × List Char
  | '.' :: rest => let (ds, rest) := digits rest; (some ds, rest)
  | cs => (none, cs)

/-- A power of ten in front of a text, and what follows it; without a digit there is none. -/
def exponent? (cs : List Char) : Option Int × List Char :=
  match cs with
  | c :: rest =>
    if c = 'e' ∨ c = 'E' then
      let (negative, rest) := sign rest
      match digits rest with
      | ([], _) => (none, cs)
      | (ds, rest) => (some (if negative then -(Text.ofDigits ds : Int) else Text.ofDigits ds), rest)
    else (none, cs)
  | [] => (none, [])

/-- A sign is taken, then digits with or without a point, then a power of ten; what follows comes back. -/
def read (cs : List Char) : Numeral × List Char :=
  let (negative, cs) := sign cs
  let (whole, cs) := digits cs
  let (fraction, cs) := fraction? cs
  let (exponent, cs) := exponent? cs
  (⟨negative, whole, fraction, exponent⟩, cs)

/-- What stands behind the digits of a numeral and the point before, between or behind them; without a digit there
is no numeral. -/
def behindDigits? (cs : List Char) : Option (List Char) :=
  match digits cs with
  | ([], '.' :: rest) =>
    match digits rest with
    | ([], _) => none
    | (_, rest) => some rest
  | ([], _) => none
  | (_, '.' :: rest) => some (digits rest).2
  | (_, rest) => some rest

/-- Whether the text is a numeral, white space around it aside. -/
def isNumeral (s : String) : Bool :=
  match behindDigits? (sign (Text.trimStart s.toList)).2 with
  | some rest => (exponent? rest).2.all Text.isBlank
  | none => false

/-- The numeral that a whole text is, white space around it aside. -/
def ofText? (s : String) : Option Numeral :=
  match read (Text.trim s.toList) with
  | (n, []) => if n.whole.isEmpty && (n.fraction.getD []).isEmpty then none else some n
  | _ => none

/-- Whether the numeral denotes an integer by its form: neither point nor power of ten. -/
def isInteger (n : Numeral) : Bool := n.fraction.isNone && n.exponent.isNone

/-- All its digits as one number. -/
def significand (n : Numeral) : Nat := Text.ofDigits (n.whole ++ n.fraction.getD [])

/-- The power of ten by which the significand counts. -/
def scale (n : Numeral) : Int := n.exponent.getD 0 - (n.fraction.getD []).length

/-- The integer of a numeral without point and power of ten. -/
def toInt (n : Numeral) : Int :=
  if n.negative then -(Text.ofDigits n.whole : Int) else Text.ofDigits n.whole

/-- The binary number nearest to the denoted value. -/
def toBinary64 (n : Numeral) : Binary64 := Binary64.ofDecimal n.negative n.significand n.scale

/-- A text converted to an integer. Only numerals without point and power of ten can be. -/
def integerOfText? (s : String) : Option Int :=
  (ofText? s).bind fun n => if n.isInteger then some n.toInt else none

/-- A text converted to a binary number. Only numerals can be. -/
def binary64OfText? (s : String) : Option Binary64 := (ofText? s).map toBinary64

end Numeral

end JsonTables
