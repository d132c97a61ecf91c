/-
  JsonTables.Json.Reader — reading JSON text. The reader keeps the lists and mappings that are still
  open on a stack and goes through the text once. A failure names its reason and how much of the text
  was left, from which its position follows. `NaN` and the infinities count as numbers, a number with
  point or exponent is binary and any other an integer, and of a repeated key the last value counts. An
  integer of more digits than the limit allows is refused where it stands.
-/

import JsonTables.Numeral
import JsonTables.Value.Basic

namespace JsonTables.Json

/-- Why a text is no JSON. -/
inductive Reason where
  | value
  | propertyName
  | colon
  | comma
  | unterminatedString
  | controlCharacter
  | escape
  | unicodeEscape
  | extraData
  | byteOrderMark
  | overlong
  deriving DecidableEq, Repr

def Reason.message : Reason → String
  | value => "Expecting value"
  | propertyName => "Expecting property name enclosed in double quotes"
  | colon => "Expecting ':' delimiter"
  | comma => "Expecting ',' delimiter"
  | unterminatedString => "Unterminated string starting at"
  | controlCharacter => "Invalid control character at"
  | escape => "Invalid \\escape"
  | unicodeEscape => "Invalid \\uXXXX escape"
  | extraData => "Extra data"
  | byteOrderMark => "Unexpected UTF-8 BOM (decode using utf-8-sig)"
  | overlong => "Exceeds the limit for integers"

/-- A reason, and the number of characters from the failing one to the end of the text. -/
structure Failure where
  reason : Reason
  remaining : Nat
  deriving DecidableEq, Repr

/-- The failure at the first character of `cs`. -/
def fail {α : Type} (reason : Reason) (cs : List Char) : Except Failure α :=
  .error ⟨reason, cs.length⟩

/-- The failure with its place in the text: line and column count from one. -/
def Failure.message (text : List Char) (f : Failure) : String :=
  let position := text.length - f.remaining
  let before := text.take position
  let line := before.count '\n' + 1
  let column := (before.reverse.takeWhile (· ≠ '\n')).length + 1
  s!"{f.reason.message}: line {line} column {column} (char {position})"

/-! ## Strings -/

/-- The value of a hexadecimal digit. -/
def hexValue? (c : Char) : Option Nat :=
  if c.isDigit then some (c.toNat - '0'.toNat)
  else if 'a' ≤ c ∧ c ≤ 'f' then some (c.toNat - 'a'.toNat + 10)
  else if 'A' ≤ c ∧ c ≤ 'F' then some (c.toNat - 'A'.toNat + 10)
  else none

/-- The unit that four hexadecimal digits denote. They may not be the end of the text. -/
def unit? : List Char → Option Nat
  | a :: b :: c :: d :: _ :: _ => do
    return ((← hexValue? a) * 16 + (← hexValue? b)) * 256 + (← hexValue? c) * 16 + (← hexValue? d)
  | _ => none

def isHighUnit (n : Nat) : Bool := 0xd800 ≤ n && n < 0xdc00
def isLowUnit (n : Nat) : Bool := 0xdc00 ≤ n && n < 0xe000

/-- The character of one unit; half a pair stands for no character. -/
def unitChar (n : Nat) : Char := if isHighUnit n || isLowUnit n then '\ufffd' else Char.ofNat n

/-- The character of a pair of units. -/
def pairChar (high low : Nat) : Char := Char.ofNat (0x10000 + (high - 0xd800) * 0x400 + (low - 0xdc00))

/-- The character that an escape denotes, and the length of the escape behind its backslash. -/
def escape (cs : List Char) : Except Failure (Char × Nat) :=
  match cs with
  | 'u' :: digits =>
    match unit? digits with
    | none => fail .unicodeEscape cs
    | some unit =>
      match digits.drop 4 with
      | '\\' :: second@('u' :: more) =>
        if isHighUnit unit && 5 ≤ more.length then
          match unit? more with
          | none => fail .unicodeEscape second
          | some low =>
            if isLowUnit low then .ok (pairChar unit low, 11) else .ok (unitChar unit, 5)
        else .ok (unitChar unit, 5)
      | _ => .ok (unitChar unit, 5)
  | '\x22' :: _ => .ok ('\x22', 1)
  | '\\' :: _ => .ok ('\\', 1)
  | '/' :: _ => .ok ('/', 1)
  | 'b' :: _ => .ok ('\x08', 1)
  | 'f' :: _ => .ok ('\x0c', 1)
  | 'n' :: _ => .ok ('\n', 1)
  | 'r' :: _ => .ok ('\r', 1)
  | 't' :: _ => .ok ('\t', 1)
  | _ => .error ⟨.escape, cs.length + 1⟩

/-- The characters of a string whose opening quote has been read, and what follows its closing one.
The string as a whole starts at `start`. -/
def stringTail (start cs : List Char) : Except Failure (List Char × List Char) :=
  match cs with
  | [] => fail .unterminatedString start
  | c :: rest =>
    if c = '\x22' then .ok ([], rest)
    else if c = '\\' then
      if rest.isEmpty then fail .unterminatedString start
      else match escape rest with
        | .error f => .error f
        | .ok (d, n) => (stringTail start (rest.drop n)).map fun (ds, rest) => (d :: ds, rest)
    else if c.toNat < 0x20 then fail .controlCharacter cs
    else (stringTail start rest).map fun (ds, rest) => (c :: ds, rest)
termination_by cs.length
decreasing_by all_goals (simp only [List.length_drop, List.length_cons]; omega)

/-! ## Values without parts -/

/-- The digits of ASCII in front of a text. -/
def asciiDigits (cs : List Char) : List Char := cs.takeWhile Char.isDigit

/-- The whole part of a number: a zero alone, or digits that start with none. -/
def wholePart : List Char → List Char
  | '0' :: _ => ['0']
  | cs => asciiDigits cs

/-- The point and the digits behind it. -/
def fractionPart : List Char → List Char
  | '.' :: cs => if (asciiDigits cs).isEmpty then [] else '.' :: asciiDigits cs
  | _ => []

/-- The exponent with its letter, its sign and at least one digit. -/
def exponentPart : List Char → List Char
  | c :: cs =>
    if c = 'e' ∨ c = 'E' then
      let sign := cs.take 1 |>.filter fun c => c = '+' ∨ c = '-'
      let digits := asciiDigits (cs.drop sign.length)
      if digits.isEmpty then [] else c :: sign ++ digits
    else []
  | [] => []

/-- The numeral in front of a text. -/
def numeralPart (cs : List Char) : List Char :=
  let sign := cs.take 1 |>.filter (· = '-')
  let cs := cs.drop sign.length
  let whole := wholePart cs
  let cs := cs.drop whole.length
  let fraction := fractionPart cs
  if whole.isEmpty then [] else sign ++ whole ++ fraction ++ exponentPart (cs.drop fraction.length)

/-- The number that a numeral denotes. -/
def numberOf (cs : List Char) : Number :=
  let n := (Numeral.read cs).1
  if n.isInteger then .int n.toInt else .float n.toBinary64

/-- The words that are values. -/
def words : List (String × Value) :=
  [("null", .null), ("true", .bool true), ("false", .bool false),
    ("NaN", .number (.float .nan)), ("Infinity", .number (.float (.infinity false))),
    ("-Infinity", .number (.float (.infinity true)))]

/-- The word or number in front of a text, and its length. -/
def scalar? (cs : List Char) : Option (Value × Nat) :=
  match words.find? fun w => w.1.toList.isPrefixOf cs with
  | some (word, v) => some (v, word.length)
  | none =>
    match numeralPart cs with
    | [] => none
    | numeral => some (.number (numberOf numeral), numeral.length)

/-! ## The whole text -/

/-- Whether JSON allows the character between its parts. -/
def isGap (c : Char) : Bool := c = ' ' || c = '\t' || c = '\n' || c = '\r'

/-- Without the gap in front. -/
def skip (cs : List Char) : List Char := cs.dropWhile isGap

/-- A list or mapping that is still open, with what it holds so far, last first. -/
inductive Frame where
  | list (before : List Value)
  | map (before : List (String × Value)) (key : String)

theorem length_skip_le (cs : List Char) : (skip cs).length ≤ cs.length := by
  induction cs with
  | nil => simp [skip]
  | cons c cs ih =>
    simp only [skip, List.dropWhile_cons] at ih ⊢
    split
    · simp only [List.length_cons]; omega
    · simp

theorem length_of_skip {cs rest : List Char} {c : Char} (h : skip cs = c :: rest) :
    rest.length < cs.length := by
  have := length_skip_le cs
  rw [h, List.length_cons] at this
  omega

theorem length_stringTail {start cs : List Char} {r : List Char × List Char}
    (h : stringTail start cs = .ok r) : r.2.length < cs.length := by
  fun_induction stringTail start cs generalizing r with
  | case1 => simp [fail] at h
  | case2 => simp only [Except.ok.injEq] at h; subst h; simp
  | case3 => simp [fail] at h
  | case4 => simp at h
  | case5 rest _ d n _ _ ih =>
    cases hs : stringTail start (rest.drop n) with
    | error f => simp [hs, Except.map] at h
    | ok q =>
      simp only [hs, Except.map, Except.ok.injEq] at h
      subst h
      have := ih hs
      simp only [List.length_drop, List.length_cons] at this ⊢
      omega
  | case6 => simp [fail] at h
  | case7 c rest _ _ _ ih =>
    cases hs : stringTail start rest with
    | error f => simp [hs, Except.map] at h
    | ok q =>
      simp only [hs, Except.map, Except.ok.injEq] at h
      subst h
      have := ih hs
      simp only [List.length_cons]
      omega

mutual

/-- A value starts at the front of `cs`. -/
def readValue (limit : Nat) (stack : List Frame) (cs : List Char) : Except Failure Value :=
  match cs with
  | [] => fail .value cs
  | c :: rest =>
    if c = '\x7b' then
      match _h : skip rest with
      | '\x7d' :: rest => readNext limit stack (.map []) rest
      | rest => readProperty limit stack [] rest
    else if c = '[' then
      match _h : skip rest with
      | ']' :: rest => readNext limit stack (.list []) rest
      | rest => readValue limit (.list [] :: stack) rest
    else if c = '\x22' then
      match _h : stringTail cs rest with
      | .error f => .error f
      | .ok (s, rest) => readNext limit stack (.text (String.ofList s)) rest
    else match scalar? (c :: rest) with
      | some (v, n) => if v.withinDigits limit then readNext limit stack v (rest.drop (n - 1)) else fail .overlong cs
      | none => fail .value cs
termination_by cs.length
decreasing_by
  all_goals rw [List.length_cons]
  · exact Nat.lt_succ_of_lt (length_of_skip _h)
  · exact Nat.lt_succ_of_le (_h ▸ length_skip_le _)
  · exact Nat.lt_succ_of_lt (length_of_skip _h)
  · exact Nat.lt_succ_of_le (_h ▸ length_skip_le _)
  · exact Nat.lt_succ_of_lt (length_stringTail _h)
  · exact Nat.lt_succ_of_le (List.length_drop ▸ Nat.sub_le _ _)

/-- The key of a mapping's entry starts at the front of `cs`. -/
def readProperty (limit : Nat) (stack : List Frame) (before : List (String × Value)) (cs : List Char) :
    Except Failure Value :=
  match cs with
  | '\x22' :: rest =>
    match _h : stringTail cs rest with
    | .error f => .error f
    | .ok (key, rest) =>
      match _h' : skip rest with
      | ':' :: rest => readValue limit (.map before (String.ofList key) :: stack) (skip rest)
      | rest => fail .colon rest
  | _ => fail .propertyName cs
termination_by cs.length
decreasing_by
  rw [List.length_cons]
  exact Nat.lt_succ_of_lt (Nat.lt_of_le_of_lt (length_skip_le _)
    (Nat.lt_trans (length_of_skip _h') (length_stringTail _h)))

/-- The value `v` ends in front of `cs`. -/
def readNext (limit : Nat) (stack : List Frame) (v : Value) (cs : List Char) : Except Failure Value :=
  match stack with
  | [] => match skip cs with
    | [] => .ok v
    | rest => fail .extraData rest
  | .list before :: stack => match _h : skip cs with
    | ']' :: rest => readNext limit stack (.list (v :: before).reverse) rest
    | ',' :: rest => readValue limit (.list (v :: before) :: stack) (skip rest)
    | rest => fail .comma rest
  | .map before key :: stack => match _h : skip cs with
    | '\x7d' :: rest => readNext limit stack (.map (Entries.ofList ((key, v) :: before).reverse)) rest
    | ',' :: rest => readProperty limit stack ((key, v) :: before) (skip rest)
    | rest => fail .comma rest
termination_by cs.length
decreasing_by
  · exact length_of_skip _h
  · exact Nat.lt_of_le_of_lt (length_skip_le _) (length_of_skip _h)
  · exact length_of_skip _h
  · exact Nat.lt_of_le_of_lt (length_skip_le _) (length_of_skip _h)

end

/-- The value that a text denotes, where integers have so many digits at most. -/
def read (limit : Nat) (cs : List Char) : Except Failure Value :=
  match cs with
  | '\ufeff' :: _ => fail .byteOrderMark cs
  | _ => readValue limit [] (skip cs)

end JsonTables.Json
