/-
  JsonTables.Entries — entries in order of insertion: a new key goes to the end, and a key that is
  there keeps its place and takes the new value.
-/

namespace JsonTables

/-- Keys with what they hold, in order. -/
abbrev Entries (α : Type) := List (String × α)

namespace Entries

variable {α β : Type}

def keys (es : Entries α) : List String := es.map Prod.fst

/-- What the first entry of a key holds. -/
def get? (es : Entries α) (key : String) : Option α := (es.find? (·.1 == key)).map Prod.snd

def insert (es : Entries α) (key : String) (a : α) : Entries α :=
  match es with
  | [] => [(key, a)]
  | e :: rest => if e.1 = key then (key, a) :: rest else e :: insert rest key a

/-- All entries of `new` put in, one after another. -/
def overlay (es new : Entries α) : Entries α := new.foldl (fun es e => insert es e.1 e.2) es

/-- Entries with each key once: the first place and the last value. -/
def ofList (es : List (String × α)) : Entries α := overlay [] es

theorem keys_insert (es : Entries α) (key : String) (a : α) :
    keys (insert es key a) = if key ∈ keys es then keys es else keys es ++ [key] := by
  induction es with
  | nil => simp [insert, keys]
  | cons e rest ih =>
    by_cases h : e.1 = key
    · subst h; simp [insert, keys]
    · have h' : key ≠ e.1 := Ne.symm h
      simp only [keys] at ih
      simp only [insert, h, keys, List.map_cons, List.mem_cons, h', if_false, false_or, ih]
      by_cases hk : key ∈ List.map Prod.fst rest <;> simp [hk]

theorem nodup_keys_insert {es : Entries α} (h : (keys es).Nodup) (key : String) (a : α) :
    (keys (insert es key a)).Nodup := by
  rw [keys_insert]
  split
  · exact h
  · next hn =>
    refine List.nodup_append.mpr ⟨h, by simp, ?_⟩
    intro x hx y hy
    rw [List.mem_singleton] at hy
    subst hy
    intro e
    exact hn (e ▸ hx)

theorem nodup_keys_overlay {es : Entries α} (h : (keys es).Nodup) (new : Entries α) :
    (keys (overlay es new)).Nodup := by
  induction new generalizing es with
  | nil => exact h
  | cons e rest ih => exact ih (nodup_keys_insert h e.1 e.2)

theorem nodup_keys_ofList (es : List (String × α)) : (keys (ofList es)).Nodup :=
  nodup_keys_overlay (by simp [keys]) es

end Entries

end JsonTables
