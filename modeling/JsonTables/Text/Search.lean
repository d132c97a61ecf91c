/-
  JsonTables.Text.Search — finding, replacing and cutting parts of a text. Positions count characters
  from zero, and occurrences are looked for from left to right without overlap.
-/

namespace JsonTables.Text

/-- The position of the first occurrence of `part`. -/
def find? (part : List Char) : List Char → Option Nat
  | [] => if part.isEmpty then some 0 else none
  | c :: rest => if part.isPrefixOf (c :: rest) then some 0 else (find? part rest).map (· + 1)

/-- Whether `part` occurs. -/
def contains (s part : String) : Bool := (find? part.toList s.toList).isSome

/-- Every occurrence of the non-empty `part` becomes `by_`. The number is how many characters of an
occurrence are still to be passed over. -/
def replaceFrom (part by_ : List Char) : Nat → List Char → List Char
  | _, [] => []
  | skip + 1, _ :: rest => replaceFrom part by_ skip rest
  | 0, c :: rest =>
    if part.isPrefixOf (c :: rest) then by_ ++ replaceFrom part by_ (part.length - 1) rest
    else c :: replaceFrom part by_ 0 rest

/-- The text with every occurrence of `part` replaced; an empty `part` occurs nowhere. -/
def replace (s part by_ : String) : String :=
  if part.isEmpty then s else String.ofList (replaceFrom part.toList by_.toList 0 s.toList)

/-- The pieces between the occurrences of one character. -/
def splitOn (sep : Char) : List Char → List (List Char)
  | [] => [[]]
  | c :: rest =>
    if c = sep then [] :: splitOn sep rest
    else match splitOn sep rest with
      | piece :: pieces => (c :: piece) :: pieces
      | [] => [[c]]

/-- The characters from position `start` up to, not including, `stop`. -/
def slice (cs : List Char) (start stop : Nat) : List Char := (cs.drop start).take (stop - start)

/-- A text filled up with blanks on the right to a width. -/
def padRight (width : Nat) (s : String) : String :=
  s ++ String.ofList (List.replicate (width - s.length) ' ')

end JsonTables.Text
