/-
  JsonTables.Value.Basic — the values that cells hold: null, truth values, numbers, texts, lists and
  mappings. A value is missing if it is null or the marker that a projected row shows for null.
-/

import JsonTables.Entries
import JsonTables.Number

namespace JsonTables

inductive Value where
  | null
  | bool (b : Bool)
  | number (n : Number)
  | text (s : String)
  | list (items : List Value)
  | map (entries : List (String × Value))

namespace Value

/-! ## Equality is decidable -/

mutual

def decEq : (a b : Value) → Decidable (a = b)
  | null, null => isTrue rfl
  | bool a, bool b => if h : a = b then isTrue (h ▸ rfl) else isFalse fun e => h (by injection e)
  | number a, number b => if h : a = b then isTrue (h ▸ rfl) else isFalse fun e => h (by injection e)
  | text a, text b => if h : a = b then isTrue (h ▸ rfl) else isFalse fun e => h (by injection e)
  | list a, list b => match decEqItems a b with
    | isTrue h => isTrue (h ▸ rfl)
    | isFalse h => isFalse fun e => h (by injection e)
  | map a, map b => match decEqEntries a b with
    | isTrue h => isTrue (h ▸ rfl)
    | isFalse h => isFalse fun e => h (by injection e)
  | null, bool _ | null, number _ | null, text _ | null, list _ | null, map _
  | bool _, null | bool _, number _ | bool _, text _ | bool _, list _ | bool _, map _
  | number _, null | number _, bool _ | number _, text _ | number _, list _ | number _, map _
  | text _, null | text _, bool _ | text _, number _ | text _, list _ | text _, map _
  | list _, null | list _, bool _ | list _, number _ | list _, text _ | list _, map _
  | map _, null | map _, bool _ | map _, number _ | map _, text _ | map _, list _ =>
    isFalse (by simp)

def decEqItems : (a b : List Value) → Decidable (a = b)
  | [], [] => isTrue rfl
  | a :: as, b :: bs => match decEq a b, decEqItems as bs with
    | isTrue h, isTrue hs => isTrue (by rw [h, hs])
    | isFalse h, _ => isFalse fun e => h (List.cons.inj e).1
    | _, isFalse h => isFalse fun e => h (List.cons.inj e).2
  | [], _ :: _ | _ :: _, [] => isFalse (by simp)

def decEqEntries : (a b : List (String × Value)) → Decidable (a = b)
  | [], [] => isTrue rfl
  | (k, a) :: as, (l, b) :: bs =>
    if hk : k = l then match decEq a b, decEqEntries as bs with
      | isTrue h, isTrue hs => isTrue (by rw [hk, h, hs])
      | isFalse h, _ => isFalse fun e => h (Prod.mk.inj (List.cons.inj e).1).2
      | _, isFalse h => isFalse fun e => h (List.cons.inj e).2
    else isFalse fun e => hk (Prod.mk.inj (List.cons.inj e).1).1
  | [], _ :: _ | _ :: _, [] => isFalse (by simp)

end

instance : DecidableEq Value := decEq

instance : Inhabited Value := ⟨null⟩

/-! ## Missing values -/

/-- What a projected row shows for null. -/
def nullMarker : String := "NULL"

/-- Whether the value is null or the marker for it. -/
def isMissing : Value → Bool
  | null => true
  | text s => s == nullMarker
  | _ => false

/-- The integer `n` as a value. -/
def ofInt (n : Int) : Value := number (.int n)

/-! ## The length of integers -/

mutual

/-- Whether all integers in the value have so many digits at most. -/
def withinDigits (limit : Nat) : Value → Bool
  | number n => n.withinDigits limit
  | list items => itemsWithinDigits limit items
  | map entries => entriesWithinDigits limit entries
  | _ => true

def itemsWithinDigits (limit : Nat) : List Value → Bool
  | [] => true
  | v :: rest => v.withinDigits limit && itemsWithinDigits limit rest

def entriesWithinDigits (limit : Nat) : List (String × Value) → Bool
  | [] => true
  | (_, v) :: rest => v.withinDigits limit && entriesWithinDigits limit rest

end

/-! ## Without regard to the order of keys -/

mutual

/-- The value with the keys of every mapping in it in alphabetical order. -/
def canonical : Value → Value
  | list items => list (canonicalItems items)
  | map entries => map ((canonicalEntries entries).mergeSort fun a b => a.1 ≤ b.1)
  | v => v

def canonicalItems : List Value → List Value
  | [] => []
  | v :: rest => v.canonical :: canonicalItems rest

def canonicalEntries : List (String × Value) → List (String × Value)
  | [] => []
  | (key, v) :: rest => (key, v.canonical) :: canonicalEntries rest

end

end Value

end JsonTables
