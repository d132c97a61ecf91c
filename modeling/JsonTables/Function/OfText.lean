/-
  JsonTables.Function.OfText — functions that work on the texts of their arguments. Positions count from
  one, and an argument that is not there is an empty text. They fail where an argument has no text.
-/

import JsonTables.Text.Search
import JsonTables.Value.Coercion

namespace JsonTables.Function

/-- The text of an argument. -/
def textAt (args : List Value) (i : Nat) : Except Fault String := ((args[i]?).map Value.toText).getD (.ok "")

/-- The number of an argument, zero for one that is none or not there. -/
def numberAt (args : List Value) (i : Nat) : Except Fault Number := do
  let n? ← ((args[i]?).map Value.toNumber).getD (.ok none)
  return n?.getD (.int 0)

/-- A text function of one argument. -/
def ofText (f : String → String) (args : List Value) : Except Fault Value := do
  return .text (f (← textAt args 0))

/-- A text with the part picked from its characters. -/
def onCharacters (f : List Char → List Char) (s : String) : String := String.ofList (f s.toList)

/-- The first character of every word in upper case; words end at blanks. -/
def capitalize (s : String) : String :=
  let word (w : List Char) : String := match w with
    | [] => ""
    | c :: rest => Text.upper (String.singleton c) ++ String.ofList rest
  " ".intercalate ((Text.splitOn ' ' s.toList).map word)

def length (args : List Value) : Except Fault Value := do
  return Value.ofInt (← textAt args 0).length

/-- The part of a text from a position on, of some length at most if one is given. -/
def substring (args : List Value) : Except Fault Value := do
  let text := (← textAt args 0).toList
  let start ← if 1 < args.length then (← numberAt args 1).truncate else pure 1
  let rest := text.drop (start - 1).toNat
  if 2 < args.length then
    let count ← (← numberAt args 2).truncate
    return .text (String.ofList (rest.take count.toNat))
  else return .text (String.ofList rest)

def replace (args : List Value) : Except Fault Value := do
  let search ← textAt args 1
  -- The third argument is not looked at where there is nothing to search for.
  let by_ ← if search.isEmpty then pure "" else textAt args 2
  return .text (Text.replace (← textAt args 0) search by_)

/-- The position of the second text in the first without regard to case, zero if it is not there. -/
def position (args : List Value) : Except Fault Value := do
  let whole := Text.lower (← textAt args 0)
  let part := Text.lower (← textAt args 1)
  return Value.ofInt (match Text.find? part.toList whole.toList with
    | some i => i + 1
    | none => 0)

def containsText (args : List Value) : Except Fault Value := do
  return .bool (Text.contains (Text.lower (← textAt args 0)) (Text.lower (← textAt args 1)))

def concat (args : List Value) : Except Fault Value := do
  return .text (String.join (← args.mapM Value.toText))

end JsonTables.Function
