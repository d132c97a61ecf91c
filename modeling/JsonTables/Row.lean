/-
  JsonTables.Row — rows: columns in order, each name once, with their values.
-/

import JsonTables.Value.Basic

namespace JsonTables

structure Row where
  entries : Entries Value
  nodup : (Entries.keys entries).Nodup

namespace Row

def empty : Row := ⟨[], by simp [Entries.keys]⟩

instance : Inhabited Row := ⟨empty⟩

/-- A row of these entries; of a repeated name the last value counts, at the first place. -/
def ofList (es : List (String × Value)) : Row := ⟨Entries.ofList es, Entries.nodup_keys_ofList es⟩

def keys (r : Row) : List String := Entries.keys r.entries

def get? (r : Row) (name : String) : Option Value := Entries.get? r.entries name

def contains (r : Row) (name : String) : Bool := (r.get? name).isSome

/-- The row with a column set, at its place if it is there and else at the end. -/
def insert (r : Row) (name : String) (v : Value) : Row :=
  ⟨Entries.insert r.entries name v, Entries.nodup_keys_insert r.nodup name v⟩

/-- The row `r` with all columns of `s` set as they are there. -/
def overlay (r s : Row) : Row :=
  ⟨Entries.overlay r.entries s.entries, Entries.nodup_keys_overlay r.nodup s.entries⟩

/-- The row `r` with these columns set, one after another. -/
def setAll (r : Row) (es : List (String × Value)) : Row :=
  ⟨Entries.overlay r.entries es, Entries.nodup_keys_overlay r.nodup es⟩

/-- The row with null in every one of these columns that it lacks. -/
def fill (r : Row) (names : List String) : Row :=
  names.foldl (fun r name => if r.contains name then r else r.insert name .null) r

/-- The row as a mapping. -/
def toValue (r : Row) : Value := .map r.entries

end Row

/-- The names of all columns of some rows, in order of first appearance. -/
def columnUnion (rows : List Row) : List String :=
  Entries.keys (Entries.ofList (rows.flatMap fun r => r.entries.map fun e => (e.1, ())))

end JsonTables
