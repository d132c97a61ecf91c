/-
  JsonTables.Proofs.Entries — what entries hold after entries are put in, and the columns that rows have
  after they are overlaid or filled.

  Proved:
  - `perm_iff`, `eq_of_keys_eq`: entries are the same, in some order or in the same one, by what they hold.
  - `overlay_eq`: an overlay keeps the old keys in place with the new values, and the other new entries
    follow in their order.
  - `get?_overlay_reverse`: under a key an overlay has what the last new entry of the key has.
  - `Row.entries_fill`: filling a row puts null behind it for each name that it lacks.
  - `Row.get?_overlay`, `Row.get?_fill`: what an overlaid and a filled row have under a name.
  - `columnUnion_eq`: the columns of some rows are all their keys, each at its first appearance.
-/

import JsonTables.Row
import Mathlib.Data.List.Basic
import Mathlib.Data.List.Induction
import Mathlib.Data.List.Nodup

namespace JsonTables

namespace Entries

variable {α : Type}

/-! ## What entries hold -/

theorem get?_cons (e : String × α) (es : Entries α) (key : String) :
    get? (e :: es) key = if e.1 = key then some e.2 else get? es key := by
  by_cases h : e.1 = key <;> simp [get?, h]

theorem get?_eq_none {es : Entries α} {key : String} : get? es key = none ↔ key ∉ keys es := by
  induction es with
  | nil => simp [get?, keys]
  | cons e rest ih =>
    rw [get?_cons]
    by_cases h : e.1 = key
    · simp [keys, h]
    · have hk : key ∉ keys (e :: rest) ↔ key ∉ keys rest := by simp [keys, Ne.symm h]
      rw [if_neg h, ih, hk]

theorem get?_of_mem {es : Entries α} (hn : (keys es).Nodup) {e : String × α} (he : e ∈ es) : get? es e.1 = some e.2 := by
  induction es with
  | nil => cases he
  | cons x rest ih =>
    obtain ⟨hx, hrest⟩ := List.nodup_cons.mp hn
    rw [get?_cons]
    rcases List.mem_cons.mp he with rfl | he
    · exact if_pos rfl
    · have hne : x.1 ≠ e.1 := fun heq => hx (heq ▸ List.mem_map_of_mem he)
      rw [if_neg hne]
      exact ih hrest he

theorem get?_eq_some_iff {es : Entries α} (hn : (keys es).Nodup) {key : String} {a : α} :
    get? es key = some a ↔ (key, a) ∈ es := by
  constructor
  · intro h
    obtain ⟨e, he, rfl⟩ := Option.map_eq_some_iff.mp h
    have hkey : e.1 = key := by simpa using List.find?_some he
    rw [← hkey]
    exact List.mem_of_find?_eq_some he
  · intro h
    exact get?_of_mem hn h

theorem get?_map {β : Type} (es : Entries α) (f : α → β) (key : String) :
    get? (es.map fun e => (e.1, f e.2)) key = (get? es key).map f := by
  induction es with
  | nil => rfl
  | cons e rest ih =>
    rw [List.map_cons, get?_cons, get?_cons, ih]
    by_cases h : e.1 = key <;> simp [h]

/-- Entries with each key once are the same in some order just if they hold the same under every key. -/
theorem perm_iff {es fs : Entries α} (hes : (keys es).Nodup) (hfs : (keys fs).Nodup) :
    es.Perm fs ↔ ∀ key, get? es key = get? fs key := by
  rw [List.perm_ext_iff_of_nodup (List.Nodup.of_map _ hes) (List.Nodup.of_map _ hfs)]
  constructor
  · intro h key
    refine Option.ext fun a => ?_
    rw [get?_eq_some_iff hes, get?_eq_some_iff hfs]
    exact h (key, a)
  · intro h e
    rw [← get?_eq_some_iff hes, ← get?_eq_some_iff hfs, h e.1]

/-- Entries with the same keys in the same order and the same under every key are the same. -/
theorem eq_of_keys_eq {es fs : Entries α} (hes : (keys es).Nodup) (hkeys : keys es = keys fs)
    (h : ∀ key ∈ keys es, get? es key = get? fs key) : es = fs := by
  have hlist {gs : Entries α} (hgs : (keys gs).Nodup) :
      gs.map (fun e => (e.1, some e.2)) = (keys gs).map fun key => (key, get? gs key) := by
    rw [keys, List.map_map]
    refine List.map_congr_left fun e he => ?_
    rw [Function.comp_apply, get?_of_mem hgs he]
  have hsame : es.map (fun e => (e.1, some e.2)) = fs.map fun e => (e.1, some e.2) := by
    rw [hlist hes, hlist (hkeys ▸ hes), ← hkeys]
    refine List.map_congr_left fun key hkey => ?_
    rw [h key hkey]
  refine List.map_injective_iff.mpr (fun e f hef => ?_) hsame
  obtain ⟨hkey, hvalue⟩ := Prod.mk.inj hef
  exact Prod.ext hkey (Option.some.inj hvalue)

theorem get?_insert (es : Entries α) (key other : String) (a : α) :
    get? (insert es key a) other = if key = other then some a else get? es other := by
  induction es with
  | nil => simp [insert, get?]
  | cons e rest ih =>
    by_cases he : e.1 = key
    · by_cases hk : key = other <;> simp [insert, get?_cons, he, hk]
    · by_cases hk : key = other
      · subst hk
        simp [insert, get?_cons, he, ih]
      · simp [insert, get?_cons, he, ih, hk]

theorem insert_of_mem {es : Entries α} (hn : (keys es).Nodup) {key : String} (a : α) (h : key ∈ keys es) :
    insert es key a = es.map fun e => if e.1 = key then (key, a) else e := by
  induction es with
  | nil => simp [keys] at h
  | cons e rest ih =>
    simp only [keys, List.map_cons, List.nodup_cons, List.mem_cons] at hn h
    by_cases he : e.1 = key
    · subst he
      have hrest : ∀ x ∈ rest, (if x.1 = e.1 then (e.1, a) else x) = x := by
        intro x hx
        have hne : x.1 ≠ e.1 := fun hxe => hn.1 (hxe ▸ List.mem_map_of_mem hx)
        rw [if_neg hne]
      have hmap : rest.map (fun x => if x.1 = e.1 then (e.1, a) else x) = rest := by
        simpa using List.map_congr_left hrest
      simp [insert, hmap]
    · have hk : key ∈ keys rest := by
        rcases h with h | h
        · exact absurd h.symm he
        · exact h
      simp [insert, he, ih hn.2 hk]

theorem insert_of_not_mem {es : Entries α} {key : String} (a : α) (h : key ∉ keys es) :
    insert es key a = es ++ [(key, a)] := by
  induction es with
  | nil => rfl
  | cons e rest ih =>
    simp only [keys, List.map_cons, List.mem_cons, not_or] at h
    simp [insert, Ne.symm h.1, ih h.2]

/-! ## Overlays -/

/-- The value that the first entry of a key has in `new`, or else the old one. -/
def updated (new : Entries α) (e : String × α) : String × α := (e.1, (get? new e.1).getD e.2)

theorem updated_cons_of_ne {e x : String × α} (new : Entries α) (h : x.1 ≠ e.1) :
    updated (e :: new) x = updated new x := by
  simp [updated, get?_cons, Ne.symm h]

theorem overlay_eq {es new : Entries α} (hes : (keys es).Nodup) (hnew : (keys new).Nodup) :
    overlay es new = es.map (updated new) ++ new.filter (·.1 ∉ keys es) := by
  induction new generalizing es with
  | nil =>
    have hid : updated ([] : Entries α) = id := by funext e; simp [updated, get?]
    simp [overlay, hid]
  | cons e rest ih =>
    have hrest : (keys rest).Nodup := (List.nodup_cons.mp hnew).2
    have he : e.1 ∉ keys rest := (List.nodup_cons.mp hnew).1
    have hgone : get? rest e.1 = none := get?_eq_none.mpr he
    have hstep : overlay es (e :: rest) = overlay (insert es e.1 e.2) rest := rfl
    rw [hstep, ih (nodup_keys_insert hes e.1 e.2) hrest, keys_insert]
    by_cases hmem : e.1 ∈ keys es
    · rw [if_pos hmem, insert_of_mem hes e.2 hmem, List.map_map]
      have hmap : es.map (updated rest ∘ fun x => if x.1 = e.1 then (e.1, e.2) else x) =
          es.map (updated (e :: rest)) := by
        apply List.map_congr_left
        intro x _
        by_cases hx : x.1 = e.1
        · simp [updated, get?_cons, hx, hgone]
        · simp [hx, updated_cons_of_ne rest hx]
      rw [hmap]
      simp [hmem]
    · rw [if_neg hmem, insert_of_not_mem e.2 hmem]
      have hmap : es.map (updated rest) = es.map (updated (e :: rest)) := by
        apply List.map_congr_left
        intro x hx
        have hne : x.1 ≠ e.1 := fun h => hmem (h ▸ List.mem_map_of_mem hx)
        rw [updated_cons_of_ne rest hne]
      have hfilter : rest.filter (·.1 ∉ keys es ++ [e.1]) = rest.filter (·.1 ∉ keys es) := by
        apply List.filter_congr
        intro x hx
        have hne : x.1 ≠ e.1 := fun h => he (h ▸ List.mem_map_of_mem hx)
        simp [hne]
      rw [hfilter, List.map_append, hmap]
      simp [updated, hgone, hmem]

theorem ofList_of_nodup {es : List (String × α)} (h : (keys es).Nodup) : ofList es = es := by
  refine (overlay_eq (by simp [keys]) h).trans ?_
  simp [keys]

theorem get?_overlay (es : Entries α) {new : Entries α} (hnew : (keys new).Nodup) (key : String) :
    get? (overlay es new) key = (get? new key).or (get? es key) := by
  induction new generalizing es with
  | nil => simp [overlay, get?]
  | cons e rest ih =>
    have hgone : get? rest e.1 = none := get?_eq_none.mpr (List.nodup_cons.mp hnew).1
    have hstep : overlay es (e :: rest) = overlay (insert es e.1 e.2) rest := rfl
    rw [hstep, ih _ (List.nodup_cons.mp hnew).2, get?_insert, get?_cons]
    by_cases hk : e.1 = key
    · subst hk
      simp [hgone]
    · simp [hk]

/-- Of several new entries of a key the last one counts. -/
theorem get?_overlay_reverse (es new : Entries α) (key : String) :
    get? (overlay es new) key = (get? new.reverse key).or (get? es key) := by
  induction new generalizing es with
  | nil => simp [overlay, get?]
  | cons e rest ih =>
    have hstep : overlay es (e :: rest) = overlay (insert es e.1 e.2) rest := rfl
    have hlast : get? (e :: rest).reverse key = (get? rest.reverse key).or (get? [e] key) := by
      rw [List.reverse_cons, get?, get?, get?, List.find?_append]
      cases rest.reverse.find? (·.1 == key) <;> rfl
    rw [hstep, ih, get?_insert, hlast, Option.or_assoc, get?_cons]
    by_cases hk : e.1 = key
    · simp [hk]
    · simp [hk, get?]

/-- An overlay with other keys leaves what a search for some keys finds. -/
theorem find?_overlay (es : Entries α) {new : Entries α} {p : String → Bool} (h : ∀ key ∈ keys new, p key = false) :
    (overlay es new).find? (fun e => p e.1) = es.find? fun e => p e.1 := by
  induction new generalizing es with
  | nil => rfl
  | cons e rest ih =>
    obtain ⟨he, hrest⟩ := List.forall_mem_cons.mp h
    have hinsert : (insert es e.1 e.2).find? (fun x => p x.1) = es.find? fun x => p x.1 := by
      clear ih
      induction es with
      | nil => simp [insert, he]
      | cons x es ih =>
        by_cases hx : x.1 = e.1
        · simp [insert, hx, he]
        · simp only [insert, hx, if_false, List.find?_cons, ih]
    have hstep : overlay es (e :: rest) = overlay (insert es e.1 e.2) rest := rfl
    rw [hstep, ih _ hrest, hinsert]

theorem keys_overlay (es new : Entries α) :
    keys (overlay es new) = keys es ++ ((keys new).removeAll (keys es)).eraseDups := by
  induction new generalizing es with
  | nil => simp [overlay, keys, List.removeAll]
  | cons e rest ih =>
    have hstep : overlay es (e :: rest) = overlay (insert es e.1 e.2) rest := rfl
    rw [hstep, ih, keys_insert]
    by_cases hmem : e.1 ∈ keys es
    · have hdrop : (keys (e :: rest)).removeAll (keys es) = (keys rest).removeAll (keys es) := by
        simp [keys, List.removeAll, List.filter_cons] at hmem ⊢
        exact hmem
      rw [if_pos hmem, hdrop]
    · have hkeep : (keys (e :: rest)).removeAll (keys es) = e.1 :: (keys rest).removeAll (keys es) := by
        simp [keys, List.removeAll, List.filter_cons] at hmem ⊢
        exact hmem
      have hsplit : (keys rest).removeAll (keys es ++ [e.1]) =
          ((keys rest).removeAll (keys es)).filter (fun b => !b == e.1) := by
        simp only [List.removeAll, List.filter_filter]
        apply List.filter_congr
        intro x _
        by_cases hx : x = e.1 <;> simp [hx]
      rw [if_neg hmem, hkeep, List.eraseDups_cons, hsplit]
      simp

/-! ### What holds of all that is held -/

theorem forall_insert {P : α → Prop} {es : Entries α} {key : String} {a : α} (hes : ∀ e ∈ es, P e.2) (ha : P a) :
    ∀ e ∈ insert es key a, P e.2 := by
  induction es with
  | nil => simpa [insert] using ha
  | cons e rest ih =>
    obtain ⟨he, hrest⟩ := List.forall_mem_cons.mp hes
    unfold insert
    split
    · exact List.forall_mem_cons.mpr ⟨ha, hrest⟩
    · exact List.forall_mem_cons.mpr ⟨he, ih hrest⟩

theorem forall_overlay {P : α → Prop} {es new : Entries α} (hes : ∀ e ∈ es, P e.2) (hnew : ∀ e ∈ new, P e.2) :
    ∀ e ∈ overlay es new, P e.2 := by
  induction new generalizing es with
  | nil => exact hes
  | cons e rest ih =>
    obtain ⟨he, hrest⟩ := List.forall_mem_cons.mp hnew
    exact ih (forall_insert hes he) hrest

theorem forall_get? {P : α → Prop} {es : Entries α} (hes : ∀ e ∈ es, P e.2) {key : String} {a : α}
    (h : get? es key = some a) : P a := by
  obtain ⟨e, he, rfl⟩ := Option.map_eq_some_iff.mp h
  exact hes e (List.mem_of_find?_eq_some he)

end Entries

/-! ## Rows -/

namespace Row

theorem contains_iff (r : Row) (name : String) : r.contains name = true ↔ name ∈ r.keys := by
  have h := @Entries.get?_eq_none Value r.entries name
  cases hg : Entries.get? r.entries name with
  | none => simp [contains, Row.get?, Row.keys, hg, h.mp hg]
  | some v =>
    have hmem : name ∈ Entries.keys r.entries := by
      by_cases hm : name ∈ Entries.keys r.entries
      · exact hm
      · rw [h.mpr hm] at hg
        cases hg
    simp [contains, Row.get?, Row.keys, hg, hmem]

theorem get?_overlay (l r : Row) (name : String) : (l.overlay r).get? name = (r.get? name).or (l.get? name) :=
  Entries.get?_overlay l.entries r.nodup name

theorem get?_fill (r : Row) (names : List String) (name : String) :
    (r.fill names).get? name = (r.get? name).or (if name ∈ names then some .null else none) := by
  induction names generalizing r with
  | nil => simp [fill]
  | cons first rest ih =>
    have hstep : r.fill (first :: rest) =
        (if r.contains first then r else r.insert first .null).fill rest := rfl
    rw [hstep, ih]
    by_cases hc : r.contains first = true
    · rw [if_pos hc]
      by_cases hname : name = first
      · subst hname
        obtain ⟨v, hv⟩ := Option.isSome_iff_exists.mp hc
        simp [hv]
      · simp [hname]
    · rw [if_neg hc]
      have hnone : r.get? first = none := by simpa [contains] using hc
      have hinsert : (r.insert first .null).get? name = if first = name then some .null else r.get? name :=
        Entries.get?_insert ..
      rw [hinsert]
      by_cases hname : name = first
      · subst hname
        simp [hnone]
      · simp [hname, Ne.symm hname]

theorem entries_fill (r : Row) {names : List String} (hn : names.Nodup) :
    (r.fill names).entries = r.entries ++ (names.filter (· ∉ r.keys)).map fun name => (name, Value.null) := by
  induction names generalizing r with
  | nil => simp [fill]
  | cons name rest ih =>
    have hrest : rest.Nodup := (List.nodup_cons.mp hn).2
    have hname : name ∉ rest := (List.nodup_cons.mp hn).1
    have hstep : r.fill (name :: rest) = (if r.contains name then r else r.insert name .null).fill rest := rfl
    rw [hstep]
    by_cases hmem : name ∈ r.keys
    · rw [if_pos ((contains_iff r name).mpr hmem), ih r hrest]
      simp [hmem]
    · have hc : ¬ r.contains name = true := fun h => hmem ((contains_iff r name).mp h)
      have hentries : (r.insert name .null).entries = r.entries ++ [(name, Value.null)] :=
        Entries.insert_of_not_mem _ hmem
      have hkeys : (r.insert name .null).keys = r.keys ++ [name] := by
        simp [Row.keys, Entries.keys, hentries]
      have hfilter : rest.filter (· ∉ r.keys ++ [name]) = rest.filter (· ∉ r.keys) := by
        apply List.filter_congr
        intro x hx
        have hne : x ≠ name := fun h => hname (h ▸ hx)
        simp [hne]
      rw [if_neg hc, ih _ hrest, hentries, hkeys, hfilter]
      simp [hmem]

end Row

theorem columnUnion_eq (rows : List Row) : columnUnion rows = (rows.flatMap Row.keys).eraseDups := by
  have hkeys : Entries.keys (rows.flatMap fun r => r.entries.map fun e => (e.1, ())) =
      rows.flatMap Row.keys := by
    simp only [Entries.keys, List.map_flatMap, List.map_map]
    rfl
  unfold columnUnion Entries.ofList
  rw [Entries.keys_overlay, hkeys]
  simp [Entries.keys]

theorem filter_eraseDups (l : List String) (p : String → Bool) : l.eraseDups.filter p = (l.filter p).eraseDups := by
  induction l using List.reverseRecOn with
  | nil => rfl
  | append_singleton l x ih =>
    rw [List.eraseDups_append, List.filter_append, ih, List.filter_append, List.eraseDups_append]
    by_cases hp : p x = true
    · by_cases hx : x ∈ l <;> simp [List.removeAll, hp, hx, List.eraseDups_cons]
    · by_cases hx : x ∈ l <;> simp [List.removeAll, hp, hx, List.eraseDups_cons]

/-- Rows that have the same columns of some sort have the same union of these. -/
theorem filter_columnUnion_congr {α : Type} {as : List α} {f g : α → Row} {p : String → Bool}
    (h : ∀ a ∈ as, (f a).keys.filter p = (g a).keys.filter p) :
    (columnUnion (as.map f)).filter p = (columnUnion (as.map g)).filter p := by
  have hkeys : (as.flatMap fun a => (f a).keys.filter p) = as.flatMap fun a => (g a).keys.filter p :=
    List.flatMap_congr h
  rw [columnUnion_eq, columnUnion_eq, filter_eraseDups, filter_eraseDups, List.flatMap_map, List.flatMap_map,
    List.filter_flatMap, List.filter_flatMap, hkeys]

/-- Columns set in a row stay out of sight of a filter that drops their names. -/
theorem Row.filter_keys_setAll (r : Row) {es : List (String × Value)} {p : String → Bool}
    (h : ∀ key ∈ es.map Prod.fst, p key = false) : (r.setAll es).keys.filter p = r.keys.filter p := by
  have hkeys : (r.setAll es).keys = r.keys ++ ((Entries.keys es).removeAll r.keys).eraseDups :=
    Entries.keys_overlay r.entries es
  have hnew : ((Entries.keys es).removeAll r.keys).eraseDups.filter p = [] := by
    refine List.filter_eq_nil_iff.mpr fun key hkey => ?_
    rw [List.mem_eraseDups, List.removeAll, List.mem_filter] at hkey
    simp [h key hkey.1]
  rw [hkeys, List.filter_append, hnew, List.append_nil]

theorem eraseDups_of_nodup {names : List String} (h : names.Nodup) : names.eraseDups = names := by
  induction names with
  | nil => rfl
  | cons name names ih =>
    obtain ⟨hname, hnames⟩ := List.nodup_cons.mp h
    have hkeep : names.filter (fun other => !other == name) = names := by
      refine List.filter_eq_self.mpr fun other hother => ?_
      have hne : other ≠ name := fun heq => hname (heq ▸ hother)
      simpa using hne
    rw [List.eraseDups_cons, hkeep, ih hnames]

/-- The columns of rows that have all the same are those of any of them. -/
theorem columnUnion_of_same {rows : List Row} {columns : List String} (hrows : rows ≠ [])
    (h : ∀ r ∈ rows, r.keys = columns) : columnUnion rows = columns := by
  obtain ⟨r, rest, rfl⟩ := List.exists_cons_of_ne_nil hrows
  obtain ⟨hr, hrest⟩ := List.forall_mem_cons.mp h
  have hnew : (rest.flatMap Row.keys).removeAll r.keys = [] := by
    refine List.filter_eq_nil_iff.mpr fun key hkey => ?_
    obtain ⟨other, hother, hkey⟩ := List.mem_flatMap.mp hkey
    rw [hrest other hother, ← hr] at hkey
    simpa using hkey
  have hown : r.keys.eraseDups = r.keys := eraseDups_of_nodup r.nodup
  rw [columnUnion_eq, List.flatMap_cons, List.eraseDups_append, hnew, hown, hr]
  exact List.append_nil _

theorem mem_columnUnion {rows : List Row} {name : String} :
    name ∈ columnUnion rows ↔ ∃ r ∈ rows, r.contains name = true := by
  rw [columnUnion_eq, List.mem_eraseDups, List.mem_flatMap]
  simp only [Row.contains_iff]

theorem nodup_columnUnion (rows : List Row) : (columnUnion rows).Nodup := Entries.nodup_keys_ofList _

end JsonTables
