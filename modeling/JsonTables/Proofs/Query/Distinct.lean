/-
  JsonTables.Proofs.Query.Distinct — which rows of a result stay when each is to be shown once.

  The rows are gone through from the first to the last, and a row stays if its text is new. The texts seen so far are
  those of the earlier rows, so a row stays just if no earlier row has its text. Two rows have one text where they
  have the same columns and under each the same value, whatever the order of keys in the row and inside its values.

  Proved:
  - `Row.sortedText_eq_iff`: two rows have one text just if they are the same.
  - `exists_places_distinctFrom`: the rows that stay are those with a new text, in their order.
  - `distinctFrom_keeps_firsts`: of rows that are the same the first stays, and nothing else.
-/

import JsonTables.Proofs.Buckets
import JsonTables.Proofs.Value.Canonical
import JsonTables.Query.Order
import Mathlib

namespace JsonTables

/-! ## Rows that are the same -/

/-- The rows have the same columns, in whatever order, and the same values in them. -/
def Row.Same (r s : Row) : Prop :=
  (∀ name, name ∈ r.keys ↔ name ∈ s.keys) ∧ ∀ name v w, r.get? name = some v → s.get? name = some w → v.Same w

theorem Row.same_toValue_iff {r s : Row} : r.toValue.Same s.toValue ↔ r.Same s := by
  constructor
  · intro h
    cases h with
    | map hkeys hvalues => exact ⟨hkeys, hvalues⟩
  · intro h
    exact .map h.1 h.2

theorem Row.sortedText_eq_iff {r s : Row} (hr : ∀ e ∈ r.entries, e.2.HasUniqueKeys)
    (hs : ∀ e ∈ s.entries, e.2.HasUniqueKeys) : r.sortedText = s.sortedText ↔ r.Same s :=
  (Value.compact_canonical_eq_iff (.map r.nodup hr) (.map s.nodup hs)).trans same_toValue_iff

/-! ## Rows with a new text -/

/-- The row at a place has a text that is not among the `seen` ones and that no earlier row has. -/
def NewAt (seen : List String) (rows : List Projected) (i : Nat) : Prop :=
  ∃ p, rows[i]? = some p ∧ p.out.sortedText ∉ seen ∧
    ∀ j < i, ∀ q, rows[j]? = some q → q.out.sortedText ≠ p.out.sortedText

section NewAt

variable {seen : List String} {p : Projected} {rows : List Projected}

theorem newAt_zero : NewAt seen (p :: rows) 0 ↔ p.out.sortedText ∉ seen := by
  constructor
  · rintro ⟨q, hq, hnew, -⟩
    cases hq
    exact hnew
  · intro h
    exact ⟨p, rfl, h, fun j hj => absurd hj (Nat.not_lt_zero j)⟩

/-- Behind the first row its text counts as seen. -/
theorem newAt_succ {i : Nat} : NewAt seen (p :: rows) (i + 1) ↔ NewAt (p.out.sortedText :: seen) rows i := by
  constructor
  · rintro ⟨q, hq, hnew, hearlier⟩
    refine ⟨q, hq, ?_, fun j hj => hearlier (j + 1) (by omega)⟩
    intro hmem
    rcases List.mem_cons.mp hmem with heq | hmem
    · exact hearlier 0 (by omega) p rfl heq.symm
    · exact hnew hmem
  · rintro ⟨q, hq, hnew, hearlier⟩
    refine ⟨q, hq, fun hmem => hnew (List.mem_cons_of_mem _ hmem), ?_⟩
    intro j hj r hr
    cases j with
    | zero =>
      cases hr
      intro heq
      exact hnew (heq ▸ List.mem_cons_self)
    | succ j => exact hearlier j (by omega) r hr

theorem newAt_of_seen {text : String} (h : text ∈ seen) {i : Nat} : NewAt (text :: seen) rows i ↔ NewAt seen rows i := by
  have hmem (other : String) : other ∈ text :: seen ↔ other ∈ seen := by
    constructor
    · intro hother
      rcases List.mem_cons.mp hother with rfl | hother
      · exact h
      · exact hother
    · exact List.mem_cons_of_mem _
  simp only [NewAt, hmem]

end NewAt

/-- The rows that stay are those with a new text, in their order. -/
theorem exists_places_distinctFrom (seen : List String) (rows : List Projected) :
    ∃ places : List Nat, places.Pairwise (· < ·) ∧ (∀ i, i ∈ places ↔ NewAt seen rows i) ∧
      distinctFrom seen rows = membersAt rows places := by
  induction rows generalizing seen with
  | nil =>
    refine ⟨[], .nil, fun i => ?_, rfl⟩
    constructor
    · intro h
      cases h
    · rintro ⟨p, hp, -⟩
      cases hp
  | cons p rows ih =>
    have hlater (places : List Nat) (h : places.Pairwise (· < ·)) : (places.map (· + 1)).Pairwise (· < ·) :=
      List.pairwise_map.mpr (h.imp fun hij => Nat.add_lt_add_right hij 1)
    by_cases hseen : p.out.sortedText ∈ seen
    · obtain ⟨places, horder, hplaces, hrows⟩ := ih seen
      refine ⟨places.map (· + 1), hlater places horder, fun i => ?_, ?_⟩
      · cases i with
        | zero =>
          have hold : ¬ NewAt seen (p :: rows) 0 := newAt_zero.not.mpr (not_not.mpr hseen)
          simpa using hold
        | succ i => rw [newAt_succ, newAt_of_seen hseen, ← hplaces i]; simp
      · rw [distinctFrom, if_pos hseen, hrows, membersAt_map_succ]
    · obtain ⟨places, horder, hplaces, hrows⟩ := ih (p.out.sortedText :: seen)
      refine ⟨0 :: places.map (· + 1), ?_, fun i => ?_, ?_⟩
      · refine List.pairwise_cons.mpr ⟨fun i hi => ?_, hlater places horder⟩
        obtain ⟨j, -, rfl⟩ := List.mem_map.mp hi
        exact Nat.succ_pos j
      · cases i with
        | zero => simpa using newAt_zero.mpr hseen
        | succ i => rw [newAt_succ, ← hplaces i]; simp
      · rw [distinctFrom, if_neg hseen, hrows, ← membersAt_map_succ p rows places]
        rfl

/-- Of rows that are the same the first stays, and nothing else, in the order of the rows. -/
theorem distinctFrom_keeps_firsts {rows : List Projected}
    (h : ∀ p ∈ rows, ∀ e ∈ p.out.entries, e.2.HasUniqueKeys) :
    ∃ places : List Nat, places.Pairwise (· < ·) ∧ distinctFrom [] rows = membersAt rows places ∧
      ∀ i, i ∈ places ↔ ∃ p, rows[i]? = some p ∧ ∀ j < i, ∀ q, rows[j]? = some q → ¬ q.out.Same p.out := by
  obtain ⟨places, horder, hplaces, hrows⟩ := exists_places_distinctFrom [] rows
  refine ⟨places, horder, hrows, fun i => ?_⟩
  rw [hplaces i]
  refine exists_congr fun p => and_congr_right fun hp => ?_
  have hsame (j : Nat) (q : Projected) (hq : rows[j]? = some q) :
      q.out.sortedText ≠ p.out.sortedText ↔ ¬ q.out.Same p.out :=
    not_congr (Row.sortedText_eq_iff (h q (List.mem_of_getElem? hq)) (h p (List.mem_of_getElem? hp)))
  constructor
  · intro hnew j hj q hq
    exact (hsame j q hq).mp (hnew.2 j hj q hq)
  · intro hnew
    exact ⟨List.not_mem_nil, fun j hj q hq => (hsame j q hq).mpr (hnew j hj q hq)⟩

/-- An integer, a binary number, a truth value and a text that look alike, and a mapping: all stay. The mapping with
its keys the other way round and the integer a second time do not. -/
theorem distinctFrom_keeps_firsts_kinds :
    let row (v : Value) : Projected := ⟨Row.ofList [("v", v)], Row.empty⟩
    let kinds := [row (.ofInt 0), row (.number (.float (.zero false))), row (.bool false), row (.text "0"),
      row (.map [("a", .null), ("b", .list [])])]
    let rows := kinds ++ [row (.map [("b", .list []), ("a", .null)]), row (.ofInt 0)]
    (∀ p ∈ rows, ∀ e ∈ p.out.entries, e.2.HasUniqueKeys) ∧
      (distinctFrom [] rows).map (·.out.entries) = kinds.map (·.out.entries) ∧
      ∃ places : List Nat, places.Pairwise (· < ·) ∧ distinctFrom [] rows = membersAt rows places ∧
        ∀ i, i ∈ places ↔ ∃ p, rows[i]? = some p ∧ ∀ j < i, ∀ q, rows[j]? = some q → ¬ q.out.Same p.out := by
  intro row kinds rows
  have hentries (v : Value) : (row v).out.entries = [("v", v)] := rfl
  have hmap (es : List (String × Value)) (hkeys : (Entries.keys es).Nodup)
      (hes : ∀ e ∈ es, e.2 = .null ∨ e.2 = .list []) : (Value.map es).HasUniqueKeys := by
    refine .map hkeys fun e he => ?_
    rcases hes e he with hv | hv <;> rw [hv]
    · exact .null
    · exact .list fun v hv => absurd hv List.not_mem_nil
  have hvalues : ∀ p ∈ rows, ∀ e ∈ p.out.entries, e.2.HasUniqueKeys := by
    simp only [rows, kinds, List.cons_append, List.nil_append, List.forall_mem_cons, hentries]
    simp only [List.not_mem_nil, false_imp_iff, implies_true, and_true]
    exact ⟨.number _, .number _, .bool _, .text _, hmap _ (by decide) (by simp), hmap _ (by decide) (by simp),
      .number _⟩
  exact ⟨hvalues, by cbv, distinctFrom_keeps_firsts hvalues⟩

end JsonTables
