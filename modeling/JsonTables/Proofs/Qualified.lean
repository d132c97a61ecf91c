/-
  JsonTables.Proofs.Qualified — columns under two names, their own and one qualified by their table.

  A row of a table gets every column a second time, with the name of the table and a dot in front. Where no
  column has a dot in its own name the last dot tells both parts of a qualified name apart. So the qualified
  names of two tables never meet, and under a qualified name a row has what its column has or nothing.

  Proved:
  - `qualifiedName_inj`: a qualified name determines its table and its column.
  - `Row.get?_qualified_name`, `Row.get?_qualified_of_plain`: what a qualified row has under both names.
  - `Row.column?_qualified`: a qualified name stands for itself, or else for its last segment.
-/

import JsonTables.Expr.Eval
import JsonTables.Proofs.Entries
import JsonTables.Proofs.Expr.Text
import Mathlib.Data.List.Nodup
import Mathlib.Data.String.Basic

namespace JsonTables

/-! ## Qualified names -/

/-- The name of a column with that of its table in front. -/
def qualifiedName (table column : String) : String := table ++ "." ++ column

/-- A name without a dot. -/
def IsPlain (name : String) : Prop := '.' ∉ name.toList

instance (name : String) : Decidable (IsPlain name) := inferInstanceAs (Decidable (¬ _))

theorem toList_qualifiedName (table column : String) :
    (qualifiedName table column).toList = table.toList ++ '.' :: column.toList := by
  simp [qualifiedName]

theorem not_isPlain_qualifiedName (table column : String) : ¬ IsPlain (qualifiedName table column) := by
  simp [IsPlain, toList_qualifiedName]

theorem splitOn_append_sep (sep : Char) (cs ds : List Char) :
    Text.splitOn sep (cs ++ sep :: ds) = Text.splitOn sep cs ++ Text.splitOn sep ds := by
  induction cs with
  | nil => simp [Text.splitOn]
  | cons c cs ih =>
    rw [List.cons_append, Text.splitOn, Text.splitOn, ih]
    by_cases hc : c = sep
    · simp [hc]
    · have hne : Text.splitOn sep cs ≠ [] := by simp [splitOn_eq]
      obtain ⟨piece, pieces, hp⟩ := List.exists_cons_of_ne_nil hne
      simp [hc, hp]

/-- The last segment of a qualified name is its column. -/
theorem leafOf_qualifiedName (table : String) {column : String} (h : IsPlain column) :
    leafOf (qualifiedName table column) = column := by
  have hcolumn : Text.splitOn '.' column.toList = [column.toList] := by
    rw [splitOn_eq]
    exact List.splitOn_eq_singleton h
  have hsegments : pathSegments (qualifiedName table column) = pathSegments table ++ [column] := by
    rw [pathSegments, toList_qualifiedName, splitOn_append_sep, hcolumn, List.map_append]
    simp [pathSegments]
  simp [leafOf, hsegments, List.getLastD_eq_getLast?]

/-- A qualified name determines its table and its column. -/
theorem qualifiedName_inj {s t c d : String} (hc : IsPlain c) (hd : IsPlain d)
    (h : qualifiedName s c = qualifiedName t d) : s = t ∧ c = d := by
  have hleaf : c = d := by
    rw [← leafOf_qualifiedName s hc, h, leafOf_qualifiedName t hd]
  subst hleaf
  refine ⟨?_, rfl⟩
  rw [qualifiedName, qualifiedName, String.append_assoc, String.append_assoc] at h
  exact (String.append_left_inj _).mp h

theorem qualifiedName_column_inj {t c d : String} : qualifiedName t c = qualifiedName t d ↔ c = d :=
  String.append_right_inj _

/-! ## Qualified rows -/

/-- The entries under their qualified names. -/
def Entries.qualified {α : Type} (table : String) (es : Entries α) : Entries α :=
  es.map fun e => (qualifiedName table e.1, e.2)

theorem Entries.get?_qualified {α : Type} (table : String) (es : Entries α) (column : String) :
    Entries.get? (Entries.qualified table es) (qualifiedName table column) = Entries.get? es column := by
  induction es with
  | nil => rfl
  | cons e rest ih =>
    show Entries.get? ((qualifiedName table e.1, e.2) :: Entries.qualified table rest) _ = _
    rw [Entries.get?_cons, Entries.get?_cons, ih]
    simp only [qualifiedName_column_inj]

theorem Entries.mem_keys_qualified {α : Type} {table : String} {es : Entries α} {name : String} :
    name ∈ Entries.keys (Entries.qualified table es) ↔ ∃ c ∈ Entries.keys es, name = qualifiedName table c := by
  simp only [Entries.keys, Entries.qualified, List.map_map, List.mem_map, Function.comp_apply]
  constructor
  · rintro ⟨e, he, rfl⟩
    exact ⟨e.1, ⟨e, he, rfl⟩, rfl⟩
  · rintro ⟨c, ⟨e, he, rfl⟩, rfl⟩
    exact ⟨e, he, rfl⟩

theorem Entries.nodup_keys_qualified {α : Type} (table : String) {es : Entries α} (h : (Entries.keys es).Nodup) :
    (Entries.keys (Entries.qualified table es)).Nodup := by
  have hkeys : Entries.keys (Entries.qualified table es) = (Entries.keys es).map (qualifiedName table) := by
    simp [Entries.keys, Entries.qualified, Function.comp_def]
  rw [hkeys]
  exact List.Nodup.map (fun _ _ hcd => qualifiedName_column_inj.mp hcd) h

namespace Row

/-- The row with every column a second time under its qualified name. -/
def qualified (table : String) (r : Row) : Row := r.setAll (Entries.qualified table r.entries)

/-- A row without a dot in the name of a column. -/
def HasPlainColumns (r : Row) : Prop := ∀ name, r.contains name = true → IsPlain name

theorem hasPlainColumns_iff {r : Row} : r.HasPlainColumns ↔ ∀ name ∈ r.keys, IsPlain name := by
  simp only [HasPlainColumns, contains_iff]

theorem get?_eq_none_of_not_contains {r : Row} {name : String} (h : ¬ r.contains name = true) : r.get? name = none := by
  simpa [contains] using h

theorem contains_of_get? {r : Row} {name : String} {v : Value} (h : r.get? name = some v) : r.contains name = true := by
  simp [contains, h]

theorem get?_qualified (table : String) (r : Row) (name : String) :
    (r.qualified table).get? name = (Entries.get? (Entries.qualified table r.entries) name).or (r.get? name) :=
  Entries.get?_overlay r.entries (Entries.nodup_keys_qualified table r.nodup) name

/-- Under the qualified name of a column a row of the table has the column's value. -/
theorem get?_qualified_name {r : Row} (h : r.HasPlainColumns) (table column : String) :
    (r.qualified table).get? (qualifiedName table column) = r.get? column := by
  have hnone : r.get? (qualifiedName table column) = none :=
    get?_eq_none_of_not_contains fun hc => not_isPlain_qualifiedName table column (h _ hc)
  rw [get?_qualified, Entries.get?_qualified, hnone, Option.or_none]
  rfl

/-- Under a name that is the qualified name of no column of its own it has the value that it had. -/
theorem get?_qualified_of_forall_ne {table name : String} (r : Row) (h : ∀ c ∈ r.keys, name ≠ qualifiedName table c) :
    (r.qualified table).get? name = r.get? name := by
  have hnone : Entries.get? (Entries.qualified table r.entries) name = none := by
    refine Entries.get?_eq_none.mpr fun hmem => ?_
    obtain ⟨c, hc, hname⟩ := Entries.mem_keys_qualified.mp hmem
    exact h c hc hname
  rw [get?_qualified, hnone, Option.none_or]

/-- Under a name without a dot it has the value that it had. -/
theorem get?_qualified_of_plain (table : String) (r : Row) {name : String} (h : IsPlain name) :
    (r.qualified table).get? name = r.get? name := by
  refine r.get?_qualified_of_forall_ne fun c _ hname => ?_
  rw [hname] at h
  exact not_isPlain_qualifiedName table c h

/-- The names of a row of a table: its columns, and these under their qualified names. -/
theorem contains_qualified_iff {table : String} {r : Row} {name : String} :
    (r.qualified table).contains name = true ↔
      r.contains name = true ∨ ∃ c, r.contains c = true ∧ name = qualifiedName table c := by
  have hkeys : ∀ c, c ∈ Entries.keys r.entries ↔ r.contains c = true := fun c => (contains_iff r c).symm
  have hmem : Entries.get? (Entries.qualified table r.entries) name = none ↔
      name ∉ Entries.keys (Entries.qualified table r.entries) := Entries.get?_eq_none
  rw [Entries.mem_keys_qualified] at hmem
  simp only [hkeys] at hmem
  rw [contains, get?_qualified]
  cases hq : Entries.get? (Entries.qualified table r.entries) name with
  | none =>
    have hno := hmem.mp hq
    rw [Option.none_or]
    exact ⟨.inl, fun h => h.resolve_right hno⟩
  | some v =>
    refine iff_of_true rfl (.inr ?_)
    by_contra hno
    rw [hmem.mpr hno] at hq
    cases hq

/-- A row of one table has nothing under the qualified name of a column of another. -/
theorem get?_qualified_of_ne {s t : String} (hne : s ≠ t) {r : Row} (h : r.HasPlainColumns) {c : String}
    (hc : IsPlain c) : (r.qualified s).get? (qualifiedName t c) = none := by
  refine get?_eq_none_of_not_contains fun hcontains => ?_
  rcases contains_qualified_iff.mp hcontains with hown | ⟨d, hd, heq⟩
  · exact not_isPlain_qualifiedName t c (h _ hown)
  · exact hne (qualifiedName_inj hc (h d hd) heq).1.symm

/-! ## What a qualified name stands for -/

/-- Behind every name with a dot stands a column of the row itself. -/
def LeavesPlain (r : Row) : Prop :=
  ∀ name, r.contains name = true → ¬ IsPlain name →
    ∃ t c, name = qualifiedName t c ∧ IsPlain c ∧ r.contains c = true

/-- A qualified name stands for what the row has under it, or else under its last segment. -/
theorem column?_qualified {r : Row} (hr : r.LeavesPlain) (table : String) {c : String} (hc : IsPlain c) :
    r.column? (qualifiedName table c) = (r.get? (qualifiedName table c)).or (r.get? c) := by
  have hleaf := leafOf_qualifiedName table hc
  have hne : c ≠ qualifiedName table c := fun h => not_isPlain_qualifiedName table c (h ▸ hc)
  unfold column?
  simp only [hleaf, if_pos hne]
  cases hexact : r.get? (qualifiedName table c) with
  | some v => rfl
  | none =>
    cases hlast : r.get? c with
    | some v => rfl
    | none =>
      -- A column that ends in the segment would have it as its own last one, and the row would have that.
      have hfind : (r.entries.find? fun e => ("." ++ c).toList.isSuffixOf e.1.toList) = none := by
        refine List.find?_eq_none.mpr fun e he hsuffix => ?_
        have hcontains : r.contains e.1 = true :=
          (contains_iff r e.1).mpr (List.mem_map_of_mem he)
        obtain ⟨front, hfront⟩ := List.isSuffixOf_iff_suffix.mp hsuffix
        have hname : e.1 = qualifiedName (String.ofList front) c := by
          rw [← String.toList_inj, toList_qualifiedName, String.toList_ofList, ← hfront]
          simp
        have hdot : ¬ IsPlain e.1 := hname ▸ not_isPlain_qualifiedName _ c
        obtain ⟨t, d, heq, hd, hown⟩ := hr e.1 hcontains hdot
        obtain ⟨-, rfl⟩ := qualifiedName_inj hc hd (hname.symm.trans heq)
        rw [contains, hlast] at hown
        cases hown
      rw [hfind]
      rfl

theorem leavesPlain_qualified {r : Row} (h : r.HasPlainColumns) (table : String) : (r.qualified table).LeavesPlain := by
  intro name hname hdot
  rcases contains_qualified_iff.mp hname with hown | ⟨c, hc, rfl⟩
  · exact absurd (h name hown) hdot
  · exact ⟨table, c, rfl, h c hc, contains_qualified_iff.mpr (.inl hc)⟩

theorem contains_overlay {l r : Row} {name : String} :
    (l.overlay r).contains name = true ↔ r.contains name = true ∨ l.contains name = true := by
  simp [contains, get?_overlay, Option.isSome_or]

theorem contains_fill {r : Row} {names : List String} {name : String} :
    (r.fill names).contains name = true ↔ r.contains name = true ∨ name ∈ names := by
  rw [contains, get?_fill, Option.isSome_or, Bool.or_eq_true]
  by_cases h : name ∈ names <;> simp [h, contains]

theorem leavesPlain_overlay {l r : Row} (hl : l.LeavesPlain) (hr : r.LeavesPlain) : (l.overlay r).LeavesPlain := by
  intro name hname hdot
  rcases contains_overlay.mp hname with hown | hown
  · obtain ⟨t, c, heq, hc, hcol⟩ := hr name hown hdot
    exact ⟨t, c, heq, hc, contains_overlay.mpr (.inl hcol)⟩
  · obtain ⟨t, c, heq, hc, hcol⟩ := hl name hown hdot
    exact ⟨t, c, heq, hc, contains_overlay.mpr (.inr hcol)⟩

theorem leavesPlain_fill {r : Row} (hr : r.LeavesPlain) {rows : List Row} (hrows : ∀ s ∈ rows, s.LeavesPlain) :
    (r.fill (columnUnion rows)).LeavesPlain := by
  intro name hname hdot
  rcases contains_fill.mp hname with hown | hunion
  · obtain ⟨t, c, heq, hc, hcol⟩ := hr name hown hdot
    exact ⟨t, c, heq, hc, contains_fill.mpr (.inl hcol)⟩
  · obtain ⟨s, hs, hown⟩ := mem_columnUnion.mp hunion
    obtain ⟨t, c, heq, hc, hcol⟩ := hrows s hs name hown hdot
    exact ⟨t, c, heq, hc, contains_fill.mpr (.inr (mem_columnUnion.mpr ⟨s, hs, hcol⟩))⟩

theorem leavesPlain_empty : Row.empty.LeavesPlain := by
  intro name hname
  cases hname

end Row

end JsonTables
