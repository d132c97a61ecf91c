/-
  JsonTables.Proofs.Query.Order — `ORDER BY` is a stable sort on several keys.

  The rows of a result are put in order by values that are found first and do not depend on a direction.
  So the order is that of places by these values, and where nothing ties flipped directions reverse it.

  Proved:
  - `orderRows_outcome`: the rows sorted by their values, or the first fault in finding these.
  - `orderRows_stable`: every row once, in order of its values, rows that tie as they were.
-/

import JsonTables.Function.Builtin
import JsonTables.Proofs.Buckets
import JsonTables.Proofs.Evaluation
import JsonTables.Proofs.Order
import JsonTables.Query.Order

namespace JsonTables

open Evaluation

/-! ## The values that decide -/

/-- The value of a key on a row: the one that the result shows under its name, or that of its source. -/
def sortValueOn (scope : Scope) (p : Projected) (o : OrderItem) : Except Fault Value :=
  match o.expr.outputNames.findSome? p.out.get? with
  | some v => .ok v
  | none => o.expr.valueOn scope p.source

/-- The values of all keys on a row. -/
def sortValuesOn (scope : Scope) (orderBy : List OrderItem) (p : Projected) : Except Fault (List Value) :=
  orderBy.mapM (sortValueOn scope p)

/-- A key in the other direction. -/
def OrderItem.flip (o : OrderItem) : OrderItem := { o with direction := o.direction.flip }

theorem steady_sortValue (scope : Scope) (p : Projected) (o : OrderItem) : Steady (sortValue scope p o) := by
  unfold sortValue
  split
  · exact steady_pure _
  · exact Expr.steady_eval scope p.source o.expr

theorem outcome_sortValue (scope : Scope) (p : Projected) (o : OrderItem) :
    (sortValue scope p o).outcome = sortValueOn scope p o := by
  unfold sortValue sortValueOn
  cases o.expr.outputNames.findSome? p.out.get? <;> rfl

theorem sortValuesOn_flip (scope : Scope) (orderBy : List OrderItem) (p : Projected) :
    sortValuesOn scope (orderBy.map OrderItem.flip) p = sortValuesOn scope orderBy p := by
  unfold sortValuesOn
  rw [List.mapM_map]
  rfl

theorem steady_sortValues (scope : Scope) (orderBy : List OrderItem) (p : Projected) :
    Steady (orderBy.mapM (sortValue scope p)) :=
  steady_mapM (steady_sortValue scope p) orderBy

theorem outcome_sortValues (scope : Scope) (orderBy : List OrderItem) (p : Projected) :
    (orderBy.mapM (sortValue scope p)).outcome = sortValuesOn scope orderBy p := by
  rw [outcome_mapM (steady_sortValue scope p), sortValuesOn, funext (outcome_sortValue scope p)]

theorem steady_orderRows (scope : Scope) (orderBy : List OrderItem) (rows : List Projected) :
    Steady (orderRows scope orderBy rows) :=
  (steady_mapM_zipWith (steady_sortValues scope orderBy) Prod.mk rows).bind fun _ => steady_pure _

theorem orderRows_outcome (scope : Scope) (orderBy : List OrderItem) (rows : List Projected) :
    (orderRows scope orderBy rows).outcome = do
      let keys ← rows.mapM (sortValuesOn scope orderBy)
      return (sortByKeys (orderBy.map (·.direction)) (keys.zip rows)).map Prod.snd := by
  have hkeyed := steady_mapM_zipWith (steady_sortValues scope orderBy) Prod.mk rows
  refine (outcome_bind hkeyed fun _ => steady_pure _).trans ?_
  rw [outcome_mapM_zipWith (steady_sortValues scope orderBy)]
  simp only [outcome_sortValues]
  cases rows.mapM (sortValuesOn scope orderBy) <;> rfl

/-! ## Rows that are left out -/

theorem mem_distinctFrom {seen : List String} {projected : List Projected} {p : Projected}
    (h : p ∈ distinctFrom seen projected) : p ∈ projected := by
  induction projected generalizing seen with
  | nil => exact h
  | cons q rest ih =>
    unfold distinctFrom at h
    dsimp only at h
    split at h
    · exact List.mem_cons_of_mem _ (ih h)
    · rcases List.mem_cons.mp h with rfl | h
      · exact List.mem_cons_self
      · exact List.mem_cons_of_mem _ (ih h)

/-! ## Sorting as an order of places -/

theorem zip_range {keys : List (List Value)} {n : Nat} (h : keys.length = n) :
    keys.zip (List.range n) = (List.range n).map fun i => (keys.getD i [], i) := by
  refine List.ext_getElem (by simp [h]) fun i hi hi' => ?_
  have hk : i < keys.length := by
    simp only [List.length_zip] at hi
    omega
  simp [List.getD_eq_getElem?_getD, List.getElem?_eq_getElem hk]

theorem sortByKeys_zip {α : Type} (ds : List Direction) {keys : List (List Value)} {as : List α}
    (h : keys.length = as.length) :
    (sortByKeys ds (keys.zip as)).map Prod.snd = membersAt as (sortPlaces ds keys (List.range as.length)) := by
  -- The members appear twice: behind the keys, and as what stands at the places behind the keys.
  have hmembers : (keys.zip as).map (Prod.map id some) =
      (keys.zip (List.range as.length)).map (Prod.map id fun i => as[i]?) := by
    rw [← List.zip_map_right, ← List.zip_map_right]
    congr 1
    refine List.ext_getElem (by simp) fun i hi hi' => ?_
    simp only [List.length_map] at hi
    simp [List.getElem?_eq_getElem hi]
  have hsort : ∀ {β γ : Type} (g : β → γ) (keyed : List (List Value × β)),
      (sortByKeys ds keyed).map (Prod.map id g) = sortByKeys ds (keyed.map (Prod.map id g)) := by
    intro β γ g keyed
    unfold sortByKeys
    rw [List.map_mergeSort]
    intro x _ y _
    rfl
  have hsome : (sortByKeys ds (keys.zip as)).map (some ∘ Prod.snd) =
      (sortPlaces ds keys (List.range as.length)).map fun i => as[i]? := by
    have hleft : (some ∘ Prod.snd : List Value × α → Option α) = Prod.snd ∘ Prod.map id some := rfl
    rw [hleft, ← List.map_map, hsort, hmembers, ← hsort, zip_range h, sortByKeys_map, List.map_map, List.map_map]
    rfl
  calc (sortByKeys ds (keys.zip as)).map Prod.snd
      = ((sortByKeys ds (keys.zip as)).map (some ∘ Prod.snd)).filterMap id := by simp [List.filterMap_map]
    _ = membersAt as (sortPlaces ds keys (List.range as.length)) := by
      rw [hsome, List.filterMap_map]
      rfl

/-! ## The order of the rows -/

section Sorted

variable {scope : Scope} {orderBy : List OrderItem} {rows : List Projected} {keys : List (List Value)}

/-- Rows whose values are found come out as their places are sorted. -/
theorem orderRows_eq (h : rows.mapM (sortValuesOn scope orderBy) = .ok keys) (journal : Journal) :
    ((orderRows scope orderBy rows).start journal).1 =
      .ok (membersAt rows (sortPlaces (orderBy.map (·.direction)) keys (List.range rows.length))) := by
  have hlen : keys.length = rows.length := (forall₂_of_mapM h).length_eq.symm
  rw [steady_orderRows scope orderBy rows journal, orderRows_outcome, h, ← sortByKeys_zip _ hlen]
  rfl

theorem inOrder_sortPlaces_range (h : rows.mapM (sortValuesOn scope orderBy) = .ok keys) (hkind : OneKind keys) :
    InOrder (orderBy.map (·.direction)) keys (List.range rows.length)
      (sortPlaces (orderBy.map (·.direction)) keys (List.range rows.length)) := by
  have hlen : keys.length = rows.length := (forall₂_of_mapM h).length_eq.symm
  refine inOrder_sortPlaces List.pairwise_lt_range ?_ ?_
  · rwa [← hlen, map_getD_range]
  · intro i hi
    rw [List.length_map]
    exact length_getD_mapM h (List.mem_range.mp hi)

end Sorted

/-- The rows come out once each in the order of their values, and those that tie as they were. Where no two
tie, all directions the other way round give the rows from the end. -/
theorem orderRows_stable (scope : Scope) (orderBy : List OrderItem) (rows : List Projected) (journal : Journal) :
    let result := ((orderRows scope orderBy rows).start journal).1
    (∀ fault, rows.mapM (sortValuesOn scope orderBy) = .error fault → result = .error fault) ∧
    ∀ keys, rows.mapM (sortValuesOn scope orderBy) = .ok keys → OneKind keys →
      ∃ places shown, InOrder (orderBy.map (·.direction)) keys (List.range rows.length) places ∧
        shown = membersAt rows places ∧ shown.Perm rows ∧ result = .ok shown ∧
        ((∀ i < rows.length, ∀ j < rows.length, TiedAt keys i j → i = j) →
          ((orderRows scope (orderBy.map OrderItem.flip) rows).start journal).1 = .ok shown.reverse) := by
  intro result
  constructor
  · intro fault h
    show ((orderRows scope orderBy rows).start journal).1 = _
    rw [steady_orderRows scope orderBy rows journal, orderRows_outcome, h]
    rfl
  intro keys h hkind
  have hplaces := inOrder_sortPlaces_range h hkind
  have hperm : (membersAt rows (sortPlaces (orderBy.map (·.direction)) keys (List.range rows.length))).Perm rows := by
    conv_rhs => rw [← membersAt_range rows]
    exact hplaces.each.filterMap _
  refine ⟨_, _, hplaces, rfl, hperm, orderRows_eq h journal, ?_⟩
  intro hties
  have hflip : rows.mapM (sortValuesOn scope (orderBy.map OrderItem.flip)) = .ok keys := by
    rw [funext (sortValuesOn_flip scope orderBy)]
    exact h
  have hdirections : (orderBy.map OrderItem.flip).map (·.direction) =
      (orderBy.map (·.direction)).map Direction.flip := by
    rw [List.map_map, List.map_map]
    rfl
  have hreverse := hplaces.reverse_of_flip (hdirections ▸ inOrder_sortPlaces_range hflip hkind) fun i hi j hj =>
    hties i (List.mem_range.mp hi) j (List.mem_range.mp hj)
  rw [orderRows_eq hflip journal, hdirections, hreverse, membersAt, List.filterMap_reverse]
  rfl

/-- The number 10, the numeral `9` and the number 2 are of one kind and differ, so that both directions of a
column that the result does not show give one another from the end. -/
theorem orderRows_stable_numerals :
    let scope : Scope := ⟨Registry.builtin, []⟩
    let row (v : Value) : Projected := ⟨Row.empty, Row.ofList [("n", v)]⟩
    let rows := [row (Value.ofInt 10), row (.text "9"), row (Value.ofInt 2)]
    let keys := [[Value.ofInt 10], [.text "9"], [Value.ofInt 2]]
    ∃ places shown, InOrder [.descending] keys [0, 1, 2] places ∧ shown.Perm rows ∧
      ((orderRows scope [⟨.column "n", .descending⟩] rows).start []).1 = .ok shown ∧
      ((orderRows scope [⟨.column "n", .ascending⟩] rows).start []).1 = .ok shown.reverse := by
  intro scope row rows keys
  have hkind : OneKind keys := by
    have hnumbers : ∀ vs ∈ keys, ∀ v ∈ vs, v.number?.isSome = true := by decide +kernel
    exact fun n => .inl fun vs hvs v hv => hnumbers vs hvs v (List.mem_of_getElem? hv)
  have hties : ∀ i < rows.length, ∀ j < rows.length, TiedAt keys i j → i = j := by decide +kernel
  obtain ⟨places, shown, hplaces, _, hperm, hshown, hflip⟩ :=
    (orderRows_stable scope [⟨.column "n", .descending⟩] rows []).2 keys rfl hkind
  exact ⟨places, shown, hplaces, hperm, hshown, hflip hties⟩

end JsonTables
