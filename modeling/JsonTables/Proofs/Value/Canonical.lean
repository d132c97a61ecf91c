/-
  JsonTables.Proofs.Value.Canonical — values that are the same but for the order of keys in their mappings.

  The canonical form of a value has the keys of every mapping in alphabetical order. Two mappings with the same keys
  and the same values under them have the same entries in some order, and as no key comes twice there is one
  alphabetical order of these. JSON text is read as the value that was written, so the text of the canonical form
  tells apart just the values that differ in more than the order of keys.

  Proved:
  - `Binary64.text_injective`: different binary numbers have different texts.
  - `Value.canonical_eq_iff`: two values have one canonical form just if they are the same.
  - `Value.compact_canonical_eq_iff`: their canonical forms have one JSON text just if they are the same.
-/

import JsonTables.Proofs.Json.RoundTrip
import JsonTables.Value.Basic
import Mathlib.Data.String.Basic
import Mathlib.Order.Filter.AtTopBot.Finite

namespace JsonTables

/-! ## The texts of binary numbers -/

/-- The text of a finite number is read as the number, and the other texts are no numerals. -/
theorem Binary64.ofText?_text (x : Binary64) :
    (Numeral.ofText? (plain.text x)).map Numeral.toBinary64 = if x.isFinite then some x else none := by
  by_cases hx : x.isFinite = true
  · obtain ⟨n, hread, -, hvalue⟩ := Numeral.ofText?_plain hx
    rw [if_pos hx, hread, Option.map_some, hvalue]
  · rw [if_neg hx]
    cases x with
    | finite negative m e hc => exact absurd rfl hx
    | infinity negative => cases negative <;> decide +kernel
    | nan => decide +kernel

theorem Binary64.text_injective : Function.Injective plain.text := by
  intro x y h
  have hread : (if x.isFinite then some x else none) = if y.isFinite then some y else none := by
    rw [← ofText?_text, ← ofText?_text, h]
  by_cases hx : x.isFinite = true
  · by_cases hy : y.isFinite = true
    · rw [if_pos hx, if_pos hy] at hread
      exact Option.some.inj hread
    · rw [if_pos hx, if_neg hy] at hread
      cases hread
  · by_cases hy : y.isFinite = true
    · rw [if_neg hx, if_pos hy] at hread
      cases hread
    · -- Three numbers are left, and their texts are words.
      cases x with
      | finite negative m e hc => exact absurd rfl hx
      | infinity negative =>
        cases y with
        | finite negative' m e hc => exact absurd rfl hy
        | infinity negative' => revert h; revert negative negative'; decide +kernel
        | nan => revert h; revert negative; decide +kernel
      | nan =>
        cases y with
        | finite negative m e hc => exact absurd rfl hy
        | infinity negative => revert h; revert negative; decide +kernel
        | nan => rfl

namespace Value

/-! ## Structural equality -/

/-- The values are of one kind and hold the same: binary numbers have the same text, lists are the same item by item,
and mappings have the same keys, in whatever order, with the same values under them. -/
inductive Same : Value → Value → Prop
  | null : Same null null
  | bool (b : Bool) : Same (bool b) (bool b)
  | int (n : Int) : Same (ofInt n) (ofInt n)
  | float {x y : Binary64} : Binary64.plain.text x = Binary64.plain.text y →
      Same (number (.float x)) (number (.float y))
  | text (s : String) : Same (text s) (text s)
  | list {items others : List Value} : items.length = others.length → (∀ p ∈ items.zip others, Same p.1 p.2) →
      Same (list items) (list others)
  | map {es fs : List (String × Value)} : (∀ key, key ∈ Entries.keys es ↔ key ∈ Entries.keys fs) →
      (∀ key v w, Entries.get? es key = some v → Entries.get? fs key = some w → Same v w) → Same (map es) (map fs)

theorem same_number (n : Number) : Same (number n) (number n) := by
  cases n with
  | int n => exact .int n
  | float x => exact .float rfl

/-! ## The canonical form -/

theorem canonicalItems_eq (items : List Value) : canonicalItems items = items.map canonical := by
  induction items with
  | nil => rfl
  | cons v items ih => rw [canonicalItems, ih, List.map_cons]

theorem canonicalEntries_eq (es : List (String × Value)) :
    canonicalEntries es = es.map fun e => (e.1, e.2.canonical) := by
  induction es with
  | nil => rfl
  | cons e es ih => rw [canonicalEntries, ih, List.map_cons]

/-- Entries in alphabetical order of their keys. -/
def sorted (es : List (String × Value)) : List (String × Value) := es.mergeSort fun e f => e.1 ≤ f.1

theorem canonical_list (items : List Value) : (list items).canonical = list (items.map canonical) := by
  rw [canonical, canonicalItems_eq]

theorem canonical_map (es : List (String × Value)) :
    (map es).canonical = map (sorted (es.map fun e => (e.1, e.2.canonical))) := by
  rw [canonical, canonicalEntries_eq, sorted]

theorem keys_canonicalEntries (es : List (String × Value)) :
    Entries.keys (es.map fun e => (e.1, e.2.canonical)) = Entries.keys es := by
  simp [Entries.keys]

theorem sorted_perm (es : List (String × Value)) : (sorted es).Perm es := List.mergeSort_perm ..

/-- Entries with different keys have one alphabetical order. -/
theorem sorted_eq_iff {es fs : List (String × Value)} (hes : (Entries.keys es).Nodup) :
    sorted es = sorted fs ↔ es.Perm fs := by
  constructor
  · intro h
    exact (sorted_perm es).symm.trans (h ▸ sorted_perm fs)
  · intro h
    have hordered (gs : List (String × Value)) : (sorted gs).Pairwise fun e f => e.1 ≤ f.1 := by
      have hsort := @List.pairwise_mergeSort _ (fun e f : String × Value => decide (e.1 ≤ f.1))
        (by simpa using fun _ _ _ => String.le_trans) (by simpa using String.le_total) gs
      simpa [sorted] using hsort
    have hperm : (sorted es).Perm (sorted fs) := (sorted_perm es).trans (h.trans (sorted_perm fs).symm)
    refine List.Perm.eq_of_pairwise (fun e f he hf hef hfe => ?_) (hordered es) (hordered fs) hperm
    have hkey : e.1 = f.1 := String.le_antisymm hef hfe
    have hget := Entries.get?_of_mem hes ((sorted_perm es).mem_iff.mp he)
    rw [hkey, Entries.get?_of_mem hes (h.mem_iff.mpr ((sorted_perm fs).mem_iff.mp hf))] at hget
    exact Prod.ext hkey (Option.some.inj hget).symm

theorem canonical_map_eq_iff {es fs : List (String × Value)} (hes : (Entries.keys es).Nodup)
    (hfs : (Entries.keys fs).Nodup) : (map es).canonical = (map fs).canonical ↔
      ∀ key, (Entries.get? es key).map canonical = (Entries.get? fs key).map canonical := by
  have hes' := (keys_canonicalEntries es).symm ▸ hes
  have hfs' := (keys_canonicalEntries fs).symm ▸ hfs
  rw [canonical_map, canonical_map, map.injEq, sorted_eq_iff hes', Entries.perm_iff hes' hfs']
  simp only [Entries.get?_map]

theorem hasUniqueKeys_canonical {v : Value} (h : v.HasUniqueKeys) : v.canonical.HasUniqueKeys := by
  induction h with
  | null => exact .null
  | bool b => exact .bool b
  | number n => exact .number n
  | text s => exact .text s
  | list _ ih =>
    rw [canonical_list]
    exact .list (List.forall_mem_map.mpr ih)
  | @map es hkeys _ ih =>
    rw [canonical_map]
    have hperm := sorted_perm (es.map fun e => (e.1, e.2.canonical))
    refine .map ?_ fun e he => ?_
    · rw [← keys_canonicalEntries es] at hkeys
      exact (hperm.map Prod.fst).nodup_iff.mpr hkeys
    · obtain ⟨f, hf, rfl⟩ := List.mem_map.mp (hperm.mem_iff.mp he)
      exact ih f hf

/-! ## One canonical form for what is the same -/

theorem same_of_canonical {v w : Value} (hv : v.HasUniqueKeys) (hw : w.HasUniqueKeys)
    (h : v.canonical = w.canonical) : v.Same w := by
  induction hv generalizing w with
  | null => cases w <;> simp [canonical] at h; exact .null
  | bool b =>
    cases w <;> simp [canonical] at h
    rw [h]
    exact .bool _
  | number n =>
    cases w <;> simp [canonical] at h
    rw [h]
    exact same_number _
  | text s =>
    cases w <;> simp [canonical] at h
    rw [h]
    exact .text _
  | @list items _ ih =>
    cases hw with
    | @list others hothers =>
      rw [canonical_list, canonical_list, list.injEq] at h
      have hlength : items.length = others.length := by simpa using congrArg List.length h
      refine .list hlength fun p hp => ?_
      obtain ⟨i, hi, rfl⟩ := List.mem_iff_getElem.mp hp
      rw [List.getElem_zip]
      rw [List.length_zip] at hi
      refine ih _ (List.getElem_mem _) (hothers _ (List.getElem_mem _)) ?_
      have hitem := congrArg (fun vs : List Value => vs[i]?) h
      simpa [show i < items.length by omega, show i < others.length by omega] using hitem
    | _ => simp [canonical] at h
  | @map es hes _ ih =>
    cases hw with
    | @map fs hfs hvalues =>
      have hget := (canonical_map_eq_iff hes hfs).mp h
      refine .map (fun key => ?_) fun key v w hv hw => ?_
      · have hnone : Entries.get? es key = none ↔ Entries.get? fs key = none := by
          rw [← Option.map_eq_none_iff, hget key, Option.map_eq_none_iff]
        rw [Entries.get?_eq_none, Entries.get?_eq_none] at hnone
        exact not_iff_not.mp hnone
      · have hcanonical := hget key
        rw [hv, hw, Option.map_some, Option.map_some, Option.some.injEq] at hcanonical
        exact ih (key, v) ((Entries.get?_eq_some_iff hes).mp hv)
          (hvalues (key, w) ((Entries.get?_eq_some_iff hfs).mp hw)) hcanonical
    | _ => simp [canonical] at h

theorem canonical_of_same {v w : Value} (h : v.Same w) (hv : v.HasUniqueKeys) (hw : w.HasUniqueKeys) :
    v.canonical = w.canonical := by
  induction h with
  | null => rfl
  | bool b => rfl
  | int n => rfl
  | float htext => rw [Binary64.text_injective htext]
  | text s => rfl
  | @list items others hlength _ ih =>
    cases hv with
    | list hitems =>
    cases hw with
    | list hothers =>
      rw [canonical_list, canonical_list]
      congr 1
      refine List.ext_getElem (by simpa using hlength) fun i hi hi' => ?_
      rw [List.length_map] at hi hi'
      rw [List.getElem_map, List.getElem_map]
      exact ih (items[i], others[i]) (List.mem_iff_getElem.mpr ⟨i, by rw [List.length_zip]; omega, List.getElem_zip⟩)
        (hitems _ (List.getElem_mem hi)) (hothers _ (List.getElem_mem hi'))
  | @map es fs hkeys _ ih =>
    cases hv with
    | map hes hvalues =>
    cases hw with
    | map hfs hothers =>
      refine (canonical_map_eq_iff hes hfs).mpr fun key => ?_
      cases hget : Entries.get? es key with
      | none =>
        have hmem := (hkeys key).not.mp (Entries.get?_eq_none.mp hget)
        rw [Entries.get?_eq_none.mpr hmem]
      | some v =>
        cases hget' : Entries.get? fs key with
        | none =>
          have hmem := (hkeys key).not.mpr (Entries.get?_eq_none.mp hget')
          rw [Entries.get?_eq_none.mpr hmem] at hget
          cases hget
        | some w =>
          have hcanonical := ih key v w hget hget' (hvalues (key, v) ((Entries.get?_eq_some_iff hes).mp hget))
            (hothers (key, w) ((Entries.get?_eq_some_iff hfs).mp hget'))
          rw [Option.map_some, Option.map_some, hcanonical]

theorem canonical_eq_iff {v w : Value} (hv : v.HasUniqueKeys) (hw : w.HasUniqueKeys) :
    v.canonical = w.canonical ↔ v.Same w :=
  ⟨same_of_canonical hv hw, fun h => canonical_of_same h hv hw⟩

/-! ## One text for what is the same -/

/-- No limit is too low for long: a value is read back under every limit that is high enough for it. -/
theorem HasUniqueKeys.eventually_withinDigits {v : Value} (h : v.HasUniqueKeys) :
    ∀ᶠ limit in Filter.atTop, v.withinDigits limit = true := by
  induction h with
  | null => exact .of_forall fun _ => rfl
  | bool b => exact .of_forall fun _ => rfl
  | text s => exact .of_forall fun _ => rfl
  | number n =>
    cases n with
    | int n =>
      refine (Filter.eventually_ge_atTop (Nat.toDigits 10 n.natAbs).length).mono fun limit hlimit => ?_
      exact decide_eq_true hlimit
    | float x => exact .of_forall fun _ => rfl
  | @list items _ ih =>
    simp only [withinDigits_list, List.all_eq_true]
    exact (Filter.eventually_all_finite items.finite_toSet).mpr ih
  | @map entries _ _ ih =>
    simp only [withinDigits_map, List.all_eq_true]
    exact (Filter.eventually_all_finite entries.finite_toSet).mpr ih

/-- Different values have different JSON texts. -/
theorem compact_eq_iff {v w : Value} (hv : v.HasUniqueKeys) (hw : w.HasUniqueKeys) :
    Json.compact v = Json.compact w ↔ v = w := by
  constructor
  · intro h
    obtain ⟨limit, hvdigits, hwdigits⟩ := (hv.eventually_withinDigits.and hw.eventually_withinDigits).exists
    have hread : Json.read limit (Json.compact v).toList = Json.read limit (Json.compact w).toList := by rw [h]
    rw [Json.compact, Json.read_write .line hv hvdigits, Json.compact, Json.read_write .line hw hwdigits] at hread
    exact Except.ok.inj hread
  · intro h
    rw [h]

theorem compact_canonical_eq_iff {v w : Value} (hv : v.HasUniqueKeys) (hw : w.HasUniqueKeys) :
    Json.compact v.canonical = Json.compact w.canonical ↔ v.Same w := by
  rw [compact_eq_iff (hasUniqueKeys_canonical hv) (hasUniqueKeys_canonical hw), canonical_eq_iff hv hw]

end Value

end JsonTables
