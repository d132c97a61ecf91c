/-
  JsonTables.Proofs.Text.Trim — what trimming takes away.

  Trimming takes white space off both ends and nothing else: the text is what remains with white space on
  both sides, and what remains neither begins nor ends with any.
-/

import JsonTables.Text.Blank
import Mathlib.Data.List.DropRight

namespace JsonTables.Text

theorem dropEndWhile_eq (p : Char → Bool) (cs : List Char) : dropEndWhile p cs = cs.rdropWhile p := rfl

/-- Characters of the class at the end go with those in front of them. -/
theorem dropEndWhile_append (p : Char → Bool) (cs ds : List Char) :
    dropEndWhile p (cs ++ ds) = if ds.all p then dropEndWhile p cs else cs ++ dropEndWhile p ds := by
  rw [dropEndWhile, List.reverse_append, List.dropWhile_append, dropEndWhile, dropEndWhile]
  have hall : (ds.reverse.dropWhile p).isEmpty = ds.all p := by
    rw [Bool.eq_iff_iff, List.isEmpty_iff, List.dropWhile_eq_nil_iff, List.all_eq_true]
    simp only [List.mem_reverse]
  rw [hall]
  split
  · rfl
  · rw [List.reverse_append, List.reverse_reverse]

theorem exists_end (p : Char → Bool) (cs : List Char) : ∃ ds, cs = dropEndWhile p cs ++ ds ∧ ∀ c ∈ ds, p c = true := by
  refine ⟨(cs.reverse.takeWhile p).reverse, ?_, fun c hc => ?_⟩
  · rw [dropEndWhile, ← List.reverse_append, List.takeWhile_append_dropWhile, List.reverse_reverse]
  · exact List.all_eq_true.mp List.all_takeWhile c (List.mem_reverse.mp hc)

/-- Behind something else than white space the end is trimmed by itself. -/
theorem trimEnd_append {cs : List Char} (h : ∀ c ∈ cs.getLast?, isBlank c = false) (ds : List Char) :
    trimEnd (cs ++ ds) = cs ++ trimEnd ds := by
  rw [trimEnd, dropEndWhile_append]
  split
  · rename_i hall
    have hds : ds.rdropWhile isBlank = [] := List.rdropWhile_eq_nil_iff.mpr (List.all_eq_true.mp hall)
    have hcs : cs.rdropWhile isBlank = cs :=
      List.rdropWhile_eq_self_iff.mpr fun hne => by simp [h _ (List.getLast?_eq_some_getLast hne)]
    rw [trimEnd, dropEndWhile_eq, dropEndWhile_eq, hds, hcs, List.append_nil]
  · rfl

/-- Only white space is taken away. -/
theorem exists_trim (cs : List Char) : ∃ front back, cs = front ++ trim cs ++ back ∧
    (∀ c ∈ front, isBlank c = true) ∧ ∀ c ∈ back, isBlank c = true := by
  obtain ⟨back, hback, hblank⟩ := exists_end isBlank (trimStart cs)
  refine ⟨cs.takeWhile isBlank, back, ?_, List.all_eq_true.mp List.all_takeWhile, hblank⟩
  rw [List.append_assoc, trim, trimEnd, ← hback, trimStart, List.takeWhile_append_dropWhile]

theorem dropWhile_of_head {p : Char → Bool} {cs : List Char} (h : ∀ c ∈ cs.head?, p c = false) :
    cs.dropWhile p = cs := by
  cases cs with
  | nil => rfl
  | cons c cs => simp [h c rfl]

/-- A text without white space at its ends stays. -/
theorem trim_of_ends {cs : List Char} (hfirst : ∀ c ∈ cs.head?, isBlank c = false)
    (hlast : ∀ c ∈ cs.getLast?, isBlank c = false) : trim cs = cs := by
  have hreverse : ∀ c ∈ cs.reverse.head?, isBlank c = false := by
    intro c hc
    rw [List.head?_reverse] at hc
    exact hlast c hc
  rw [trim, trimStart, dropWhile_of_head hfirst, trimEnd, dropEndWhile, dropWhile_of_head hreverse,
    List.reverse_reverse]

theorem trim_of_forall {cs : List Char} (h : ∀ c ∈ cs, isBlank c = false) : trim cs = cs :=
  trim_of_ends (fun c hc => h c (List.mem_of_head? hc)) fun c hc => h c (List.mem_of_getLast? hc)

/-- A first character that is no white space stays the first. -/
theorem trim_cons {c : Char} (h : isBlank c = false) (cs : List Char) : trim (c :: cs) = c :: trimEnd cs := by
  have hstart : trimStart (c :: cs) = c :: cs := by simp [trimStart, h]
  rw [trim, hstart, trimEnd, trimEnd, dropEndWhile, dropEndWhile, List.reverse_cons, List.dropWhile_append]
  split
  · rename_i hnil
    simp [List.isEmpty_iff.mp hnil, h]
  · simp

/-- A trimmed text begins as it is. -/
theorem trimStart_trim (cs : List Char) : trimStart (trim cs) = trim cs := by
  cases hcs : trimStart cs with
  | nil => rw [trim, hcs]; rfl
  | cons c ds =>
    have hc : isBlank c = false := by
      have hhead := List.head?_dropWhile_not isBlank cs
      rw [show cs.dropWhile isBlank = c :: ds from hcs] at hhead
      simpa using hhead
    have hstart : trimStart (c :: ds) = c :: ds := by simp [trimStart, hc]
    have htrim : trim cs = c :: trimEnd ds := by
      rw [← trim_cons hc, trim, trim, hcs, hstart]
    rw [htrim, trimStart, List.dropWhile_cons_of_neg (by simp [hc])]

theorem trim_trimStart (cs : List Char) : trim (trimStart cs) = trim cs := by
  rw [trim, trim, trimStart, trimStart, List.dropWhile_idempotent]

/-- White space in front goes. -/
theorem trim_append_left {as : List Char} (h : ∀ c ∈ as, isBlank c = true) (cs : List Char) : trim (as ++ cs) = trim cs := by
  rw [trim, trimStart, List.dropWhile_append_of_pos h]
  rfl

/-- White space behind goes. -/
theorem trim_append_right {as : List Char} (h : ∀ c ∈ as, isBlank c = true) (cs : List Char) : trim (cs ++ as) = trim cs := by
  by_cases hcs : cs.dropWhile isBlank = []
  · have hall : ∀ c ∈ cs, isBlank c = true := List.dropWhile_eq_nil_iff.mp hcs
    have hnil : (cs ++ as).dropWhile isBlank = [] := List.dropWhile_eq_nil_iff.mpr (by simp_all [or_imp])
    rw [trim, trim, trimStart, trimStart, hcs, hnil]
  · have hstart : (cs ++ as).dropWhile isBlank = cs.dropWhile isBlank ++ as := by
      rw [List.dropWhile_append, if_neg (by simpa using hcs)]
    rw [trim, trim, trimStart, trimStart, hstart, trimEnd, dropEndWhile_append, if_pos (List.all_eq_true.mpr h), trimEnd]

theorem trim_trim (cs : List Char) : trim (trim cs) = trim cs := by
  rw [trim, trimStart_trim, trim, trimEnd, trimEnd, dropEndWhile_eq, dropEndWhile_eq, List.rdropWhile_idempotent]

/-- What is not white space stays. -/
theorem mem_trim {c : Char} {cs : List Char} (h : c ∈ cs) (hc : isBlank c = false) : c ∈ trim cs := by
  have hkeep {ds : List Char} (h : c ∈ ds) : c ∈ ds.dropWhile isBlank := by
    induction ds with
    | nil => cases h
    | cons d ds ih =>
      rw [List.dropWhile_cons]
      split
      · rename_i hd
        rcases List.mem_cons.mp h with rfl | h
        · rw [hc] at hd
          cases hd
        · exact ih h
      · exact h
  rw [trim, trimEnd, dropEndWhile, List.mem_reverse]
  exact hkeep (List.mem_reverse.mpr (hkeep h))

end JsonTables.Text
