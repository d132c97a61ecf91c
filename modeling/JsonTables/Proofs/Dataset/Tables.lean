/-
  JsonTables.Proofs.Dataset.Tables — the tables of a dataset as a list, and as what paths lead to.

  The list is made by going down every mapping, and a path is followed key by key. A table is listed under the keys
  that lead to it with dots between them. Where no key is empty, has a dot or begins with a dollar sign, these keys
  are the segments of that path again, so the path leads to the table. The segments of any other path to it are the
  same keys, once dollar signs, segments without a name and a first segment `data` or `root` that no key stands for
  are left out.

  Proved:
  - `mem_tables`: what is listed is each list of mappings that keys lead to.
  - `nodup_tables`: no path is listed twice.
  - `tables_agree`: the list and the paths agree.
-/

import JsonTables.Proofs.Dataset.Paths
import JsonTables.Proofs.Entries
import Mathlib.Data.List.Nodup

namespace JsonTables.Dataset

/-! ## Keys that can stand in paths -/

/-- Mappings that keys lead to have each key once, and only keys that can stand in paths. -/
inductive Addressable : Value → Prop
  | map {es : List (String × Value)} : (Entries.keys es).Nodup → (∀ e ∈ es, IsSegment e.1) →
      (∀ e ∈ es, Addressable e.2) → Addressable (.map es)
  | leaf {v : Value} : (∀ es, v ≠ .map es) → Addressable v

/-- Keys that lead to something in a value can stand in paths. -/
theorem isSegment_of_descend {v w : Value} (hv : Addressable v) {keys : List String} (h : descend v keys = some w) :
    ∀ s ∈ keys, IsSegment s := by
  induction hv generalizing keys with
  | @map es hkeys hsegments _ ih =>
    intro s hs
    cases keys with
    | nil => cases hs
    | cons key rest =>
      obtain ⟨u, hu, hrest⟩ := descend_map_cons.mp h
      have hmem : (key, u) ∈ es := (Entries.get?_eq_some_iff hkeys).mp hu
      rcases List.mem_cons.mp hs with rfl | hs
      · exact hsegments _ hmem
      · exact ih (key, u) hmem hrest s hs
  | leaf hleaf =>
    obtain ⟨rfl, -⟩ := (descend_of_not_map hleaf).mp h
    intro s hs
    cases hs

/-! ## The list of tables -/

theorem tablesInEntries_eq (path : String) (es : List (String × Value)) :
    tablesInEntries path es =
      es.flatMap fun e => tablesIn (if path.isEmpty then e.1 else path ++ "." ++ e.1) e.2 := by
  induction es with
  | nil => rfl
  | cons e es ih =>
    obtain ⟨key, v⟩ := e
    rw [tablesInEntries, ih, List.flatMap_cons]

section Front

variable {front : List String}

theorem isEmpty_intercalate (hfront : ∀ s ∈ front, IsSegment s) :
    (".".intercalate front).isEmpty = true ↔ front = [] := by
  cases front with
  | nil => simp
  | cons s rest =>
    have hs := (hfront s List.mem_cons_self).nonempty
    cases rest with
    | nil => simpa [String.isEmpty_iff] using hs
    | cons t rest => simp [String.isEmpty_iff, String.intercalate_cons_cons]

/-- The path of what stands under a key. -/
theorem intercalate_extend (hfront : ∀ s ∈ front, IsSegment s) (key : String) :
    (if (".".intercalate front).isEmpty then key else ".".intercalate front ++ "." ++ key) =
      ".".intercalate (front ++ [key]) := by
  by_cases hne : front = []
  · rw [if_pos ((isEmpty_intercalate hfront).mpr hne), hne, List.nil_append, String.intercalate_singleton]
  · rw [if_neg ((isEmpty_intercalate hfront).not.mpr hne), intercalate_concat hne]

theorem tablesIn_map (hfront : ∀ s ∈ front, IsSegment s) (es : List (String × Value)) :
    tablesIn (".".intercalate front) (.map es) = es.flatMap fun e => tablesIn (".".intercalate (front ++ [e.1])) e.2 := by
  rw [tablesIn, tablesInEntries_eq]
  simp only [intercalate_extend hfront]

theorem isSegment_concat (hfront : ∀ s ∈ front, IsSegment s) {key : String} (hkey : IsSegment key) :
    ∀ s ∈ front ++ [key], IsSegment s := by
  intro s hs
  rcases List.mem_append.mp hs with hs | hs
  · exact hfront s hs
  · rw [List.mem_singleton.mp hs]
    exact hkey

/-- A list is listed under its own path if it is a table, and under no empty path. -/
theorem mem_tablesIn_list (hfront : ∀ s ∈ front, IsSegment s) {items : List Value} {entry : String × Nat} :
    entry ∈ tablesIn (".".intercalate front) (.list items) ↔
      front ≠ [] ∧ (rowsOf? items).isSome = true ∧ entry = (".".intercalate front, items.length) := by
  have hlisted : (!(".".intercalate front).isEmpty && (rowsOf? items).isSome) = true ↔
      front ≠ [] ∧ (rowsOf? items).isSome = true := by
    rw [Bool.and_eq_true, Bool.not_eq_true', ← Bool.not_eq_true, isEmpty_intercalate hfront]
  rw [tablesIn]
  split
  · rename_i hl
    rw [List.mem_singleton, ← and_assoc, and_iff_right (hlisted.mp hl)]
  · rename_i hl
    exact iff_of_false List.not_mem_nil fun he => hl (hlisted.mpr ⟨he.1, he.2.1⟩)

/-- What is listed under a value is each list of mappings that keys lead to, with the path of the value in front. -/
theorem mem_tablesIn {v : Value} (hv : Addressable v) (hfront : ∀ s ∈ front, IsSegment s) {entry : String × Nat} :
    entry ∈ tablesIn (".".intercalate front) v ↔ ∃ keys items, descend v keys = some (.list items) ∧
      front ++ keys ≠ [] ∧ (rowsOf? items).isSome = true ∧ entry = (".".intercalate (front ++ keys), items.length) := by
  induction hv generalizing front with
  | @map es hkeys hsegments _ ih =>
    rw [tablesIn_map hfront, List.mem_flatMap]
    constructor
    · rintro ⟨e, he, hentry⟩
      obtain ⟨keys, items, hfound, -, hrows, hentry⟩ := (ih e he (isSegment_concat hfront (hsegments e he))).mp hentry
      have hget : Entries.get? es e.1 = some e.2 := Entries.get?_of_mem hkeys he
      refine ⟨e.1 :: keys, items, descend_map_cons.mpr ⟨e.2, hget, hfound⟩, by simp, hrows, ?_⟩
      rw [hentry, List.append_assoc, List.singleton_append]
    · rintro ⟨keys, items, hfound, -, hrows, hentry⟩
      cases keys with
      | nil => cases hfound
      | cons key keys =>
        obtain ⟨u, hget, hfound⟩ := descend_map_cons.mp hfound
        have he : (key, u) ∈ es := (Entries.get?_eq_some_iff hkeys).mp hget
        refine ⟨(key, u), he, (ih _ he (isSegment_concat hfront (hsegments _ he))).mpr ?_⟩
        refine ⟨keys, items, hfound, by simp, hrows, ?_⟩
        rw [hentry, List.append_assoc, List.singleton_append]
  | @leaf v hleaf =>
    have hfound (keys : List String) (items : List Value) :
        descend v keys = some (.list items) ↔ keys = [] ∧ v = .list items := descend_of_not_map hleaf
    simp only [hfound]
    cases v with
    | list items =>
      rw [mem_tablesIn_list hfront]
      constructor
      · rintro ⟨hne, hrows, hentry⟩
        exact ⟨[], items, ⟨rfl, rfl⟩, by rwa [List.append_nil], hrows, by rwa [List.append_nil]⟩
      · rintro ⟨keys, items', ⟨rfl, heq⟩, hne, hrows, hentry⟩
        cases heq
        rw [List.append_nil] at hne hentry
        exact ⟨hne, hrows, hentry⟩
    | map es => exact absurd rfl (hleaf es)
    | _ => simp [tablesIn]

/-- Paths that are made of the same keys in front of different ones are different. -/
theorem key_eq_of_intercalate {key other : String} {keys others : List String}
    (hkeys : ∀ s ∈ front ++ key :: keys, IsSegment s) (hothers : ∀ s ∈ front ++ other :: others, IsSegment s)
    (h : ".".intercalate (front ++ key :: keys) = ".".intercalate (front ++ other :: others)) : key = other := by
  have hsame : front ++ key :: keys = front ++ other :: others := by
    rw [← segments_intercalate hkeys, ← segments_intercalate hothers, h]
  exact (List.cons.inj (List.append_cancel_left hsame)).1

/-- No path is listed twice. -/
theorem nodup_tablesIn {v : Value} (hv : Addressable v) (hfront : ∀ s ∈ front, IsSegment s) :
    ((tablesIn (".".intercalate front) v).map Prod.fst).Nodup := by
  induction hv generalizing front with
  | @map es hkeys hsegments hvalues ih =>
    rw [tablesIn_map hfront, List.map_flatMap]
    -- What is listed under a key begins with the segments in front and the key, so two keys share no path.
    have hpath {e : String × Value} (he : e ∈ es) {path : String}
        (hmem : path ∈ (tablesIn (".".intercalate (front ++ [e.1])) e.2).map Prod.fst) :
        ∃ keys, (∀ s ∈ front ++ e.1 :: keys, IsSegment s) ∧ path = ".".intercalate (front ++ e.1 :: keys) := by
      obtain ⟨entry, hentry, rfl⟩ := List.mem_map.mp hmem
      have hstart := isSegment_concat hfront (hsegments e he)
      obtain ⟨keys, items, hfound, -, -, rfl⟩ := (mem_tablesIn (hvalues e he) hstart).mp hentry
      have hrest := isSegment_of_descend (hvalues e he) hfound
      refine ⟨keys, ?_, by rw [List.append_assoc, List.singleton_append]⟩
      intro s hs
      rw [← List.singleton_append, ← List.append_assoc] at hs
      rcases List.mem_append.mp hs with hs | hs
      · exact hstart s hs
      · exact hrest s hs
    refine List.nodup_flatMap.mpr ⟨fun e he => ih e he (isSegment_concat hfront (hsegments e he)), ?_⟩
    have hdifferent : es.Pairwise fun e f => e.1 ≠ f.1 := List.pairwise_map.mp hkeys
    refine hdifferent.imp_of_mem fun {e f} he hf hne path hpe hpf => hne ?_
    obtain ⟨keys, hsegs, hp⟩ := hpath he hpe
    obtain ⟨others, hothers, hp'⟩ := hpath hf hpf
    exact key_eq_of_intercalate hsegs hothers (hp.symm.trans hp')
  | @leaf v hleaf =>
    cases v with
    | list items =>
      rw [tablesIn]
      split <;> simp
    | map es => exact absurd rfl (hleaf es)
    | _ => simp [tablesIn]

end Front

/-! ## The list and the paths -/

variable {d : Dataset}

/-- The keys of a listed table lead to it whatever they are: a first key that stands in the dataset is not left
out. -/
theorem route_intercalate {keys : List String} {v : Value} (hkeys : ∀ s ∈ keys, IsSegment s)
    (h : descend (.map d.root) keys = some v) : d.route (".".intercalate keys) = keys := by
  rw [route, segments_intercalate hkeys]
  cases keys with
  | nil => rfl
  | cons first rest =>
    obtain ⟨u, hu, -⟩ := descend_map_cons.mp h
    simp [hu]

/-- What is listed of a dataset is each list of mappings that keys lead to. -/
theorem mem_tables (h : Addressable (.map d.root)) {entry : String × Nat} :
    entry ∈ d.tables ↔ ∃ keys items, descend (.map d.root) keys = some (.list items) ∧ keys ≠ [] ∧
      (rowsOf? items).isSome = true ∧ entry = (".".intercalate keys, items.length) := by
  have hfront : ∀ s ∈ ([] : List String), IsSegment s := fun _ hs => (List.not_mem_nil hs).elim
  exact mem_tablesIn h hfront

theorem nodup_tables (h : Addressable (.map d.root)) : (d.tables.map Prod.fst).Nodup := by
  have hfront : ∀ s ∈ ([] : List String), IsSegment s := fun _ hs => (List.not_mem_nil hs).elim
  exact nodup_tablesIn h hfront

theorem table_of_mem_tables (h : Addressable (.map d.root)) {entry : String × Nat} (hentry : entry ∈ d.tables) :
    ∃ rows, d.table entry.1 = .ok rows ∧ rows.length = entry.2 := by
  obtain ⟨keys, items, hfound, -, hrows, rfl⟩ := (mem_tables h).mp hentry
  obtain ⟨rows, hrows⟩ := Option.isSome_iff_exists.mp hrows
  have hroute : d.route (".".intercalate keys) = keys := route_intercalate (isSegment_of_descend h hfound) hfound
  refine ⟨rows, table_eq_ok_iff.mpr ⟨items, ?_, hrows⟩, length_of_rowsOf? hrows⟩
  rw [hroute]
  exact hfound

theorem mem_tables_of_table (h : Addressable (.map d.root)) {path : String} {rows : List Row}
    (htable : d.table path = .ok rows) : (".".intercalate (d.route path), rows.length) ∈ d.tables := by
  obtain ⟨items, hfound, hrows⟩ := table_eq_ok_iff.mp htable
  have hne : d.route path ≠ [] := by
    intro hnil
    rw [hnil] at hfound
    cases hfound
  refine (mem_tables h).mpr ⟨d.route path, items, hfound, hne, ?_, ?_⟩
  · rw [hrows]
    rfl
  · rw [length_of_rowsOf? hrows]

/-- The list and the paths agree: no path is listed twice, each listed path leads to a table of as many rows as the
list says, and each path to a table has the segments that count in the list, with the number of the rows. Dollar signs
change nothing about what a path leads to, in any dataset. -/
theorem tables_agree (d : Dataset) :
    (Addressable (.map d.root) →
      (d.tables.map Prod.fst).Nodup ∧
      (∀ entry ∈ d.tables, ∃ rows, d.table entry.1 = .ok rows ∧ rows.length = entry.2) ∧
      ∀ path rows, d.table path = .ok rows → (".".intercalate (d.route path), rows.length) ∈ d.tables) ∧
    ∀ path new, Dollared (pathSegments path) new →
      (∀ rows, d.table (".".intercalate new) = .ok rows ↔ d.table path = .ok rows) ∧
      ∀ cause, d.table (".".intercalate new) = .error (.unknownTable (".".intercalate new) cause) ↔
        d.table path = .error (.unknownTable path cause) := by
  refine ⟨fun h => ⟨?_, ?_, ?_⟩, ?_⟩
  · exact nodup_tables h
  · exact fun entry hentry => table_of_mem_tables h hentry
  · exact fun path rows htable => mem_tables_of_table h htable
  · intro path new hnew
    have hroute : d.route (".".intercalate new) = d.route path := by
      rw [route, route, segments_of_dollared hnew]
    constructor
    · intro rows
      rw [table_eq_ok_iff, table_eq_ok_iff, hroute]
    · intro cause
      have hlacks : d.LacksTable (".".intercalate new) cause ↔ d.LacksTable path cause :=
        ⟨fun h => h.of_route hroute.symm, fun h => h.of_route hroute⟩
      simpa only [table_eq_error_iff, QueryError.unknownTable.injEq, true_and, exists_eq_right'] using hlacks

/-- The dataset has no key `data`, so a path can begin with this segment, with dollar signs as well. -/
theorem tables_agree_nested :
    let d : Dataset := ⟨[("shop", .map [("orders", .list [.map [], .map []])]), ("open", .list [.null]), ("t", .list [])]⟩
    Addressable (.map d.root) ∧ d.tables = [("shop.orders", 2), ("t", 0)] ∧ (d.tables.map Prod.fst).Nodup ∧
      (∃ rows, d.table "shop.orders" = .ok rows ∧ rows.length = 2) ∧
      Dollared (pathSegments "data.shop.orders") ["$data", "$$shop", "$", "orders"] ∧
      (∀ rows, d.table "$data.$$shop.$.orders" = .ok rows ↔ d.table "data.shop.orders" = .ok rows) ∧
      ∀ rows, d.table "data.shop.orders" = .ok rows → ("shop.orders", rows.length) ∈ d.tables := by
  intro d
  have hshop : Addressable (.map [("orders", .list [.map [], .map []])]) :=
    .map (by decide) (by decide) (List.forall_mem_singleton.mpr (.leaf (by simp)))
  have hd : Addressable (.map d.root) := by
    refine .map (by decide) (by decide) (List.forall_mem_cons.mpr ⟨hshop, List.forall_mem_cons.mpr ⟨?_, ?_⟩⟩)
    · exact .leaf (by simp)
    · exact List.forall_mem_singleton.mpr (.leaf (by simp))
  have htables : d.tables = [("shop.orders", 2), ("t", 0)] := by rfl
  have hroute : ".".intercalate (d.route "data.shop.orders") = "shop.orders" := by decide +kernel
  have hdollared : Dollared (pathSegments "data.shop.orders") ["$data", "$$shop", "$", "orders"] :=
    .segment 1 "data" (.segment 2 "shop" (.inserted 1 (.segment 0 "orders" .nil)))
  obtain ⟨⟨hnodup, hlisted, hpaths⟩, -⟩ := And.imp_left (· hd) (tables_agree d)
  refine ⟨hd, htables, hnodup, hlisted ("shop.orders", 2) ?_, hdollared, ?_, ?_⟩
  · rw [htables]
    exact List.mem_cons_self
  · exact ((tables_agree d).2 _ _ hdollared).1
  · intro rows htable
    exact hroute ▸ hpaths _ rows htable

end JsonTables.Dataset
