/-
  JsonTables.Proofs.Text.Search — where one text occurs in another, and in what a text becomes when a single one of
  its characters takes up two places.

  A character `wide` becomes the two characters `first` and `second`, and every other character one. A text without
  `second` in it, and that does not end in `first`, then occurs only where a part of the old text became it: it cannot
  begin or end in the middle of the two. Behind each `wide` character the places are one further on.

  Proved:
  - `find?_eq_some_iff`, `find?_eq_none_iff`: the search finds the first place where the part stands, if there is one.
  - `window_ne_of_find?_eq_none`, `Widening.exists_window`: what it finds in the mapped text, told by the old one.
-/

import JsonTables.Text.Search
import Mathlib.Data.List.Basic

namespace JsonTables.Text

/-! ## The first occurrence -/

theorem find?_eq_some_iff {part cs : List Char} {i : Nat} :
    find? part cs = some i ↔ i ≤ cs.length ∧ part <+: cs.drop i ∧ ∀ j < i, ¬part <+: cs.drop j := by
  induction cs generalizing i with
  | nil =>
    cases part with
    | nil => simp +contextual [find?, eq_comm]
    | cons c part => simp [find?]
  | cons c cs ih =>
    rw [find?]
    split
    · rename_i hfirst
      have hfirst := List.isPrefixOf_iff_prefix.mp hfirst
      constructor
      · rintro ⟨rfl⟩
        exact ⟨Nat.zero_le _, hfirst, fun j hj => absurd hj (Nat.not_lt_zero j)⟩
      · rintro ⟨-, -, hnone⟩
        cases i with
        | zero => rfl
        | succ i => exact absurd hfirst (hnone 0 (Nat.succ_pos i))
    · rename_i hfirst
      have hfirst : ¬part <+: c :: cs := fun h => hfirst (List.isPrefixOf_iff_prefix.mpr h)
      cases i with
      | zero => simp [hfirst]
      | succ i =>
        rw [Option.map_eq_some_iff]
        constructor
        · rintro ⟨i', hi', he⟩
          obtain rfl := Nat.succ.inj he
          obtain ⟨hle, hpart, hnone⟩ := ih.mp hi'
          refine ⟨Nat.succ_le_succ hle, hpart, fun j hj => ?_⟩
          cases j with
          | zero => exact hfirst
          | succ j => exact hnone j (Nat.lt_of_succ_lt_succ hj)
        · rintro ⟨hle, hpart, hnone⟩
          exact ⟨i, ih.mpr ⟨Nat.le_of_succ_le_succ hle, hpart, fun j hj => hnone (j + 1) (Nat.succ_lt_succ hj)⟩, rfl⟩

theorem find?_eq_none_iff {part cs : List Char} : find? part cs = none ↔ ∀ j ≤ cs.length, ¬part <+: cs.drop j := by
  induction cs with
  | nil =>
    cases part with
    | nil => simp [find?]
    | cons c part => simp [find?]
  | cons c cs ih =>
    rw [find?]
    split
    · rename_i hfirst
      have hfirst := List.isPrefixOf_iff_prefix.mp hfirst
      exact ⟨(nomatch ·), fun h => absurd hfirst (h 0 (Nat.zero_le _))⟩
    · rename_i hfirst
      rw [Option.map_eq_none_iff, ih]
      constructor
      · intro h j hj
        cases j with
        | zero => exact fun hpart => hfirst (List.isPrefixOf_iff_prefix.mpr hpart)
        | succ j => exact h j (Nat.le_of_succ_le_succ hj)
      · exact fun h j hj => h (j + 1) (Nat.succ_le_succ hj)

/-! ## Windows -/

/-- The part of a text from a place on, of some length at most. -/
def window (cs : List Char) (k length : Nat) : List Char := (cs.drop k).take length

section

variable {f : Char → List Char} {part cs : List Char}

theorem drop_flatMap (cs : List Char) (k : Nat) :
    (cs.flatMap f).drop ((cs.take k).flatMap f).length = (cs.drop k).flatMap f := by
  conv_lhs => rw [← List.take_append_drop k cs, List.flatMap_append]
  rw [List.take_append_drop, List.drop_left]

/-- Where a window became the part, the part occurs. -/
theorem prefix_of_window {k length : Nat} (h : (window cs k length).flatMap f = part) :
    part <+: (cs.flatMap f).drop ((cs.take k).flatMap f).length := by
  rw [drop_flatMap, ← h, window]
  conv_rhs => rw [← List.take_append_drop length (cs.drop k), List.flatMap_append]
  exact List.prefix_append _ _

theorem window_ne_of_find?_eq_none (h : find? part (cs.flatMap f) = none) (k length : Nat) :
    (window cs k length).flatMap f ≠ part := by
  intro hwindow
  refine find?_eq_none_iff.mp h _ ?_ (prefix_of_window hwindow)
  have hle := ((cs.take k).flatMap f).prefix_append ((cs.drop k).flatMap f) |>.length_le
  rwa [← List.flatMap_append, List.take_append_drop] at hle

end

/-! ## One character at two places -/

/-- A mapping by which one character becomes two and every other one stays one. -/
structure Widening (f : Char → List Char) (wide first second : Char) : Prop where
  two : f wide = [first, second]
  one : ∀ c, c ≠ wide → ∃ d, f c = [d]

namespace Widening

variable {f : Char → List Char} {wide first second : Char} (hf : Widening f wide first second)

include hf

theorem length_flatMap (cs : List Char) : (cs.flatMap f).length = cs.length + cs.count wide := by
  induction cs with
  | nil => rfl
  | cons c cs ih =>
    rw [List.flatMap_cons, List.length_append, ih, List.length_cons, List.count_cons]
    by_cases hc : c = wide
    · subst hc
      simp only [hf.two, List.length_cons, List.length_nil, beq_self_eq_true, if_true]
      omega
    · obtain ⟨d, hd⟩ := hf.one c hc
      simp only [hd, List.length_singleton, beq_iff_eq, hc, if_false]
      omega

/-- Characters that become one each become as many as they are. -/
theorem length_flatMap_of_not_mem {cs : List Char} (h : wide ∉ cs) : (cs.flatMap f).length = cs.length := by
  rw [hf.length_flatMap, List.count_eq_zero.mpr h, Nat.add_zero]

section Occurrences

/-! ### Occurrences in the mapped text

`part` is not cut by the two places of a wide character: there is none, or `part` has no `second` in it and does not end
in `first`. -/

variable {part : List Char}

/-- Where the part stands in front, the characters in front became it. -/
theorem flatMap_take {cs : List Char} (hclear : wide ∉ cs ∨ second ∉ part ∧ part.getLast? ≠ some first)
    (h : part <+: cs.flatMap f) : (cs.take part.length).flatMap f = part := by
  induction part generalizing cs with
  | nil => simp
  | cons d part ih =>
    cases cs with
    | nil => simp at h
    | cons c cs =>
      rw [List.flatMap_cons] at h
      by_cases hc : c = wide
      · subst hc
        rw [hf.two, List.cons_append, List.cons_prefix_cons] at h
        obtain ⟨rfl, h⟩ := h
        obtain ⟨hsecond, hlast⟩ := hclear.resolve_left (fun hc => hc List.mem_cons_self)
        cases part with
        | nil => exact absurd rfl hlast
        | cons e part =>
          rw [List.cons_append, List.cons_prefix_cons] at h
          exact absurd (by simp [h.1]) hsecond
      · obtain ⟨e, he⟩ := hf.one c hc
        rw [he, List.cons_append, List.cons_prefix_cons] at h
        obtain ⟨rfl, h⟩ := h
        rw [List.length_cons, List.take_succ_cons, List.flatMap_cons, he, ih ?_ h]
        · rfl
        · refine hclear.imp (fun hcs hmem => hcs (List.mem_cons_of_mem c hmem)) fun ⟨hsecond, hlast⟩ => ?_
          refine ⟨fun hmem => hsecond (List.mem_cons_of_mem d hmem), fun hpart => hlast ?_⟩
          rw [List.getLast?_cons, hpart]
          rfl

/-- The part stands only behind whole characters. -/
theorem exists_place {cs : List Char} (hpart : part ≠ []) (hclear : wide ∉ cs ∨ second ∉ part) {j : Nat}
    (h : part <+: (cs.flatMap f).drop j) :
    ∃ k ≤ cs.length, ((cs.take k).flatMap f).length = j ∧ part <+: (cs.drop k).flatMap f := by
  induction cs generalizing j with
  | nil => simp [hpart] at h
  | cons c cs ih =>
    cases j with
    | zero => exact ⟨0, Nat.zero_le _, rfl, h⟩
    | succ j =>
      have hrest (hclear : wide ∉ cs ∨ second ∉ part) (i : Nat) (hi : (f c).length + i = j + 1)
          (h : part <+: (cs.flatMap f).drop i) : ∃ k ≤ (c :: cs).length,
            (((c :: cs).take k).flatMap f).length = j + 1 ∧ part <+: ((c :: cs).drop k).flatMap f := by
        obtain ⟨k, hk, hlength, hdrop⟩ := ih hclear h
        refine ⟨k + 1, Nat.succ_le_succ hk, ?_, hdrop⟩
        rw [List.take_succ_cons, List.flatMap_cons, List.length_append, hlength, hi]
      rw [List.flatMap_cons] at h
      by_cases hc : c = wide
      · subst hc
        have hsecond := hclear.resolve_left (fun hc => hc List.mem_cons_self)
        rw [hf.two] at h
        cases j with
        | zero =>
          -- The part would begin in the middle of the two places.
          obtain ⟨d, part, rfl⟩ := List.exists_cons_of_ne_nil hpart
          rw [List.cons_append, List.drop_succ_cons, List.drop_zero, List.cons_append, List.cons_prefix_cons] at h
          exact absurd (by simp [h.1]) hsecond
        | succ j =>
          refine hrest (.inr hsecond) j ?_ h
          rw [hf.two, List.length_cons, List.length_singleton]
          omega
      · obtain ⟨d, hd⟩ := hf.one c hc
        rw [hd] at h
        refine hrest (hclear.imp_left fun hcs hmem => hcs (List.mem_cons_of_mem c hmem)) j ?_ h
        rw [hd, List.length_singleton]
        omega

/-- Further on in the text more characters lie in front. -/
theorem length_take_lt {cs : List Char} {k k' : Nat} (h : k' < k) (hk : k ≤ cs.length) :
    ((cs.take k').flatMap f).length < ((cs.take k).flatMap f).length := by
  have hcount : (cs.take k').count wide ≤ (cs.take k).count wide :=
    (List.take_prefix_take_left (Nat.le_of_lt h)).sublist.count_le wide
  rw [hf.length_flatMap, hf.length_flatMap, List.length_take, List.length_take]
  omega

/-- The first occurrence of the part lies where a window became it and none in front did. -/
theorem exists_window {cs : List Char} (hpart : part ≠ [])
    (hclear : wide ∉ cs ∨ second ∉ part ∧ part.getLast? ≠ some first) {j : Nat}
    (h : find? part (cs.flatMap f) = some j) :
    ∃ k, (window cs k part.length).flatMap f = part ∧ (∀ k' < k, (window cs k' part.length).flatMap f ≠ part) ∧
      j = k + (cs.take k).count wide := by
  obtain ⟨-, hprefix, hnone⟩ := find?_eq_some_iff.mp h
  obtain ⟨k, hk, hlength, hdrop⟩ := hf.exists_place hpart (hclear.imp_right And.left) hprefix
  have hclear' : wide ∉ cs.drop k ∨ second ∉ part ∧ part.getLast? ≠ some first :=
    hclear.imp_left fun hcs hmem => hcs (List.mem_of_mem_drop hmem)
  refine ⟨k, hf.flatMap_take hclear' hdrop, fun k' hk' hwindow => ?_, ?_⟩
  · exact hnone _ (hlength ▸ hf.length_take_lt hk' hk) (prefix_of_window hwindow)
  · rw [← hlength, hf.length_flatMap, List.length_take, Nat.min_eq_left hk]

end Occurrences

end Widening

end JsonTables.Text
