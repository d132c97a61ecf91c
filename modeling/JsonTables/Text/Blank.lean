/-
  JsonTables.Text.Blank — white space, trimming and line ends. A text is trimmed of every character that
  Unicode counts as white space, the four ASCII separators U+001C to U+001F included. A carriage return
  ends a line like a line feed, and the two together end one line.
-/

namespace JsonTables.Text

/-- Whether the character is white space. -/
def isBlank (c : Char) : Bool :=
  let n := c.toNat
  (0x09 ≤ n && n ≤ 0x0d) || (0x1c ≤ n && n ≤ 0x20) || n == 0x85 || n == 0xa0 || n == 0x1680 ||
    (0x2000 ≤ n && n ≤ 0x200a) || n == 0x2028 || n == 0x2029 || n == 0x202f || n == 0x205f ||
    n == 0x3000

/-- Without the characters of a class at the end. -/
def dropEndWhile (p : Char → Bool) (cs : List Char) : List Char := (cs.reverse.dropWhile p).reverse

/-- Without the white space in front. -/
def trimStart (cs : List Char) : List Char := cs.dropWhile isBlank

/-- Without the white space at the end. -/
def trimEnd (cs : List Char) : List Char := dropEndWhile isBlank cs

/-- Without the white space at both ends. -/
def trim (cs : List Char) : List Char := trimEnd (trimStart cs)

/-- A text without the white space at both ends. -/
def stripped (s : String) : String := String.ofList (trim s.toList)

/-- Every line end as a line feed. -/
def unifyLineEnds : List Char → List Char
  | '\r' :: '\n' :: rest => '\n' :: unifyLineEnds rest
  | '\r' :: rest => '\n' :: unifyLineEnds rest
  | c :: rest => c :: unifyLineEnds rest
  | [] => []

end JsonTables.Text
