/-
  JsonTables.Proofs.Order — what is sorted by keys stands in the one stable order of its keys.

  Of two lists of values the first key that tells them apart decides, in its direction. Where on every key
  all values are numbers, or none is, this is transitive; then sorting puts before what is before and
  leaves what ties as it was.

  Proved:
  - `compareKeys_eq_lt`, `compareKeys_eq_eq`: comparing key by key finds the list that is before, or a tie.
  - `OneKind.transCmp`: on keys of one kind the comparison is transitive.
  - `pairwise_sort`: sorting by a transitive comparison is stable.
  - `inOrder_sortPlaces`: so places sorted by their keys are in order.
  - `InOrder.reverse_of_flip`: where nothing ties, flipped directions give the order from its end.
-/

import JsonTables.Proofs.Value.Order
import JsonTables.Window
import Mathlib.Data.List.Forall2

namespace JsonTables

/-! ## What decides between two lists of values -/

/-- What a comparison says in a direction. -/
def Direction.turn (d : Direction) (o : Ordering) : Ordering := if d = .descending then o.swap else o

/-- The first list is before the second: the first key that tells them apart says so. -/
inductive Before : List Direction → List Value → List Value → Prop
  | here {d : Direction} {ds : List Direction} {v w : Value} {a b : List Value} :
      d.turn (v.sortCompare w) = .lt → Before (d :: ds) (v :: a) (w :: b)
  | later {d : Direction} {ds : List Direction} {v w : Value} {a b : List Value} :
      v.sortCompare w = .eq → Before ds a b → Before (d :: ds) (v :: a) (w :: b)

/-- No key tells the lists apart. -/
def Tied (a b : List Value) : Prop := List.Forall₂ (fun v w => v.sortCompare w = .eq) a b

theorem turn_eq_eq {d : Direction} {o : Ordering} : d.turn o = .eq ↔ o = .eq := by
  cases d <;> simp [Direction.turn]

theorem compareKeys_cons (d : Direction) (ds : List Direction) (v w : Value) (a b : List Value) :
    compareKeys (d :: ds) (v :: a) (w :: b) = (d.turn (v.sortCompare w)).then (compareKeys ds a b) := by
  cases h : v.sortCompare w <;> cases d <;> simp [compareKeys, h, Direction.turn]

theorem compareKeys_eq_lt {ds : List Direction} {a b : List Value} :
    compareKeys ds a b = .lt ↔ Before ds a b := by
  constructor
  · intro h
    induction ds generalizing a b with
    | nil => cases h
    | cons d ds ih =>
      rcases a with _ | ⟨v, a⟩
      · cases h
      rcases b with _ | ⟨w, b⟩
      · cases h
      rw [compareKeys_cons, Ordering.then_eq_lt, turn_eq_eq] at h
      rcases h with h | ⟨h, hrest⟩
      · exact .here h
      · exact .later h (ih hrest)
  · intro h
    induction h with
    | here h => rw [compareKeys_cons, h]; rfl
    | later h _ ih => rw [compareKeys_cons, turn_eq_eq.mpr h, ih]; rfl

theorem compareKeys_eq_eq {ds : List Direction} {a b : List Value} (ha : a.length = ds.length)
    (hb : b.length = ds.length) : compareKeys ds a b = .eq ↔ Tied a b := by
  induction ds generalizing a b with
  | nil =>
    obtain rfl := List.length_eq_zero_iff.mp ha
    obtain rfl := List.length_eq_zero_iff.mp hb
    simp [compareKeys, Tied]
  | cons d ds ih =>
    obtain ⟨v, a, rfl⟩ := List.exists_cons_of_length_eq_add_one ha
    obtain ⟨w, b, rfl⟩ := List.exists_cons_of_length_eq_add_one hb
    rw [compareKeys_cons, Ordering.then_eq_eq, turn_eq_eq, ih (by simpa using ha) (by simpa using hb)]
    simp [Tied]

theorem compareKeys_swap (ds : List Direction) (a b : List Value) :
    compareKeys ds a b = (compareKeys ds b a).swap := by
  induction ds generalizing a b with
  | nil => rfl
  | cons d ds ih =>
    rcases a with _ | ⟨v, a⟩ <;> rcases b with _ | ⟨w, b⟩
    · rfl
    · rfl
    · rfl
    · rw [compareKeys_cons, compareKeys_cons, ih a b, Value.sortCompare_swap v w, Ordering.swap_then]
      cases d <;> rfl

instance (ds : List Direction) (a b : List Value) : Decidable (Before ds a b) :=
  decidable_of_iff _ compareKeys_eq_lt

instance (a b : List Value) : Decidable (Tied a b) :=
  inferInstanceAs (Decidable (List.Forall₂ _ a b))

/-! ## Keys of one kind -/

/-- On every key the values are all numbers, or none of them is. -/
def OneKind (keys : List (List Value)) : Prop :=
  ∀ n : Nat, (∀ vs ∈ keys, ∀ v : Value, vs[n]? = some v → v.number?.isSome = true) ∨
    ∀ vs ∈ keys, ∀ v : Value, vs[n]? = some v → v.number? = none

theorem OneKind.sameKinds {keys : List (List Value)} (h : OneKind keys) {a b : List Value} (ha : a ∈ keys)
    (hb : b ∈ keys) (hlen : a.length = b.length) : List.Forall₂ Value.SameKind a b := by
  refine List.forall₂_iff_get.mpr ⟨hlen, fun n hna hnb => ?_⟩
  have hva : a[n]? = some (a.get ⟨n, hna⟩) := List.getElem?_eq_getElem hna
  have hvb : b[n]? = some (b.get ⟨n, hnb⟩) := List.getElem?_eq_getElem hnb
  rcases h n with h | h
  · exact (h a ha _ hva).trans (h b hb _ hvb).symm
  · simp only [Value.SameKind, h a ha _ hva, h b hb _ hvb]

instance transCmp_sortCompare (kind : Bool) :
    Std.TransCmp fun v w : {v : Value // v.number?.isSome = kind} => v.1.sortCompare w.1 where
  eq_swap := Value.sortCompare_swap _ _
  isLE_trans {v w x} := Value.sortCompare_isLE_trans (v.2.trans w.2.symm) (w.2.trans x.2.symm)

instance transCmp_turn {α : Type} (cmp : α → α → Ordering) [Std.TransCmp cmp] (d : Direction) :
    Std.TransCmp fun a b => d.turn (cmp a b) := by
  cases d with
  | ascending => exact inferInstanceAs (Std.TransCmp cmp)
  | descending =>
    have h : (fun a b => Direction.descending.turn (cmp a b)) = fun a b => cmp b a :=
      funext₂ fun a b => (Std.OrientedCmp.eq_swap).symm
    rw [h]
    exact Std.TransCmp.opposite

theorem compareKeys_isLE_trans {ds : List Direction} {a b c : List Value} (hab : List.Forall₂ Value.SameKind a b)
    (hbc : List.Forall₂ Value.SameKind b c) (h : (compareKeys ds a b).isLE = true)
    (h' : (compareKeys ds b c).isLE = true) : (compareKeys ds a c).isLE = true := by
  induction ds generalizing a b c with
  | nil => rfl
  | cons d ds ih =>
    cases hab with
    | nil => rfl
    | @cons v w a b hvw hab =>
      cases hbc with
      | @cons _ x _ c hwx hbc =>
        -- The values of this key are members of one kind, on which the comparison is transitive.
        let kind := {u : Value // u.number?.isSome = v.number?.isSome}
        let cmp : kind → kind → Ordering := fun u u' => d.turn (u.1.sortCompare u'.1)
        have htrans : Std.TransCmp cmp := transCmp_turn _ d
        let v' : kind := ⟨v, rfl⟩
        let w' : kind := ⟨w, hvw.symm⟩
        let x' : kind := ⟨x, (hvw.trans hwx).symm⟩
        rw [compareKeys_cons, Ordering.isLE_then_iff_or] at h h' ⊢
        rcases h with h | ⟨h, hrest⟩ <;> rcases h' with h' | ⟨h', hrest'⟩
        · exact .inl (@Std.TransCmp.lt_trans _ cmp _ v' w' x' h h')
        · exact .inl (@Std.TransCmp.lt_of_lt_of_eq _ cmp _ v' w' x' h h')
        · exact .inl (@Std.TransCmp.lt_of_eq_of_lt _ cmp _ v' w' x' h h')
        · exact .inr ⟨@Std.TransCmp.eq_trans _ cmp _ v' w' x' h h', ih hab hbc hrest hrest'⟩

/-- Among members whose keys are of one kind the comparison is transitive. -/
theorem OneKind.transCmp {α : Type} {f : α → List Value} {as : List α} (h : OneKind (as.map f)) {ds : List Direction}
    (hlen : ∀ a ∈ as, (f a).length = ds.length) :
    Std.TransCmp fun a b : {a // a ∈ as} => compareKeys ds (f a) (f b) := by
  have hkinds : ∀ a b : {a // a ∈ as}, List.Forall₂ Value.SameKind (f a) (f b) := fun a b =>
    h.sameKinds (List.mem_map_of_mem a.2) (List.mem_map_of_mem b.2) ((hlen a a.2).trans (hlen b b.2).symm)
  exact {
    eq_swap := compareKeys_swap ds _ _
    isLE_trans := compareKeys_isLE_trans (hkinds _ _) (hkinds _ _) }

/-! ## Stable sorting -/

section Sorting

variable {α : Type} {cmp : α → α → Ordering} [Std.TransCmp cmp]

/-- Before by the comparison, or tied and before already. -/
def Ahead (cmp : α → α → Ordering) (R : α → α → Prop) (a b : α) : Prop := cmp a b = .lt ∨ cmp a b = .eq ∧ R a b

theorem isLE_eq (o : Ordering) : (o != .gt) = o.isLE := by cases o <;> rfl

theorem pairwise_sort {R : α → α → Prop} {l : List α} (hR : l.Pairwise R) :
    (l.mergeSort fun a b => cmp a b != .gt).Pairwise (Ahead cmp R) := by
  let le : α → α → Bool := fun a b => cmp a b != .gt
  have htrans : ∀ a b c, le a b = true → le b c = true → le a c = true := by
    intro a b c hab hbc
    simp only [le, isLE_eq] at hab hbc ⊢
    exact Std.TransCmp.isLE_trans hab hbc
  have htotal : ∀ a b, (le a b || le b a) = true := by
    intro a b
    have hswap : cmp b a = (cmp a b).swap := Std.OrientedCmp.eq_swap
    simp only [le, isLE_eq, hswap]
    cases cmp a b <;> rfl
  have hsorted := List.pairwise_mergeSort (List.zipIdxLE_trans htrans) (List.zipIdxLE_total htotal) l.zipIdx
  have hplaces : (l.zipIdx.mergeSort (List.zipIdxLE le)).Pairwise fun x y => x.2 ≠ y.2 := by
    have hnodup : (l.zipIdx.map Prod.snd).Nodup := by
      rw [List.zipIdx_map_snd]
      exact List.nodup_range'
    have hperm := (List.mergeSort_perm l.zipIdx (List.zipIdxLE le)).map Prod.snd
    exact List.pairwise_map.mp (hperm.nodup_iff.mpr hnodup)
  rw [← List.mergeSort_zipIdx, List.pairwise_map]
  refine (hsorted.and hplaces).imp_of_mem ?_
  rintro ⟨a, i⟩ ⟨b, j⟩ hx hy ⟨hle, hne⟩
  rw [List.mem_mergeSort, List.mem_zipIdx_iff_getElem?] at hx hy
  have hswap : cmp b a = (cmp a b).swap := Std.OrientedCmp.eq_swap
  cases h : cmp a b with
  | lt => exact .inl h
  | gt => simp [List.zipIdxLE, le, h] at hle
  | eq =>
    -- Two that tie are in the order of their places, and these are not the same.
    have hij : i ≤ j := by simpa [List.zipIdxLE, le, hswap, h] using hle
    obtain ⟨hi, ha⟩ := List.getElem?_eq_some_iff.mp hx
    obtain ⟨hj, hb⟩ := List.getElem?_eq_some_iff.mp hy
    have hab := List.pairwise_iff_getElem.mp hR i j hi hj (Nat.lt_of_le_of_ne hij hne)
    exact .inr ⟨h, ha ▸ hb ▸ hab⟩

end Sorting

/-! ## Places in order -/

/-- The keys at one place are before those at another. -/
def BeforeAt (ds : List Direction) (keys : List (List Value)) (i j : Nat) : Prop :=
  Before ds (keys.getD i []) (keys.getD j [])

/-- The keys at two places tie. -/
def TiedAt (keys : List (List Value)) (i j : Nat) : Prop := Tied (keys.getD i []) (keys.getD j [])

instance (ds : List Direction) (keys : List (List Value)) (i j : Nat) : Decidable (BeforeAt ds keys i j) :=
  inferInstanceAs (Decidable (Before ds _ _))

instance (keys : List (List Value)) (i j : Nat) : Decidable (TiedAt keys i j) :=
  inferInstanceAs (Decidable (Tied _ _))

/-- The places of `part` in the order of their keys, those that tie in their own. -/
structure InOrder (ds : List Direction) (keys : List (List Value)) (part places : List Nat) : Prop where
  each : places.Perm part
  sorted : places.Pairwise fun i j => BeforeAt ds keys i j ∨ TiedAt keys i j ∧ i < j

/-- Places sorted by the keys at them. -/
def sortPlaces (ds : List Direction) (keys : List (List Value)) (part : List Nat) : List Nat :=
  part.mergeSort fun i j => compareKeys ds (keys.getD i []) (keys.getD j []) != .gt

theorem mergeSort_pair {α : Type} (le : α → α → Bool) (a b : α) :
    [a, b].mergeSort le = if le a b then [a, b] else [b, a] := by
  have hmerge : [a, b].mergeSort le = [a].merge [b] le := by simp [List.mergeSort]
  rw [hmerge, List.cons_merge_cons]
  split <;> simp

theorem sortByKeys_map {α β : Type} (ds : List Direction) (f : β → List Value) (g : β → α) (bs : List β) :
    sortByKeys ds (bs.map fun b => (f b, g b)) =
      (bs.mergeSort fun b c => compareKeys ds (f b) (f c) != .gt).map fun b => (f b, g b) := by
  unfold sortByKeys
  rw [List.map_mergeSort]
  intro b _ c _
  rfl

theorem map_snd_sortByKeys {α : Type} (ds : List Direction) (f : α → List Value) (as : List α) :
    (sortByKeys ds ((as.map f).zip as)).map Prod.snd = as.mergeSort fun a b => compareKeys ds (f a) (f b) != .gt := by
  have hzip : (as.map f).zip as = as.map fun a => (f a, a) := by
    conv_lhs => rw [← List.map_id as, List.map_map, List.zip_map']
    rfl
  rw [hzip, sortByKeys_map ds f fun a => a, List.map_map]
  exact List.map_id _

theorem sortPlaces_attach (ds : List Direction) (keys : List (List Value)) (part : List Nat) :
    (part.attach.mergeSort fun i j => compareKeys ds (keys.getD i.1 []) (keys.getD j.1 []) != .gt).map Subtype.val =
      sortPlaces ds keys part := by
  rw [List.map_mergeSort (s := fun i j => compareKeys ds (keys.getD i []) (keys.getD j []) != .gt) (by intros; rfl),
    List.attach_map_subtype_val]
  rfl

theorem pairwise_attach {part : List Nat} (h : part.Pairwise (· < ·)) : part.attach.Pairwise fun i j => i.1 < j.1 := by
  rw [← List.pairwise_map (f := Subtype.val), List.attach_map_subtype_val]
  exact h

theorem inOrder_sortPlaces {ds : List Direction} {keys : List (List Value)} {part : List Nat}
    (hpart : part.Pairwise (· < ·)) (hkind : OneKind (part.map fun i => keys.getD i []))
    (hlen : ∀ i ∈ part, (keys.getD i []).length = ds.length) : InOrder ds keys part (sortPlaces ds keys part) where
  each := List.mergeSort_perm _ _
  sorted := by
    have htrans := hkind.transCmp hlen
    rw [← sortPlaces_attach, List.pairwise_map]
    refine (pairwise_sort (pairwise_attach hpart)).imp ?_
    rintro i j (h | ⟨h, hij⟩)
    · exact .inl (compareKeys_eq_lt.mp h)
    · exact .inr ⟨(compareKeys_eq_eq (hlen i i.2) (hlen j j.2)).mp h, hij⟩

/-! ## The other way round -/

def Direction.flip : Direction → Direction
  | ascending => descending
  | descending => ascending

theorem compareKeys_flip (ds : List Direction) (a b : List Value) :
    compareKeys (ds.map Direction.flip) a b = compareKeys ds b a := by
  induction ds generalizing a b with
  | nil => rfl
  | cons d ds ih =>
    rcases a with _ | ⟨v, a⟩ <;> rcases b with _ | ⟨w, b⟩
    · rfl
    · rfl
    · rfl
    · rw [List.map_cons, compareKeys_cons, compareKeys_cons, ih a b, Value.sortCompare_swap v w]
      cases d <;> simp [Direction.flip, Direction.turn]

theorem before_flip {ds : List Direction} {a b : List Value} :
    Before (ds.map Direction.flip) a b ↔ Before ds b a := by
  rw [← compareKeys_eq_lt, compareKeys_flip, compareKeys_eq_lt]

theorem Before.asymm {ds : List Direction} {a b : List Value} (h : Before ds a b) : ¬ Before ds b a := by
  intro h'
  rw [← compareKeys_eq_lt] at h h'
  rw [compareKeys_swap, h'] at h
  cases h

/-- Where nothing ties, all directions the other way round give the order from its end. -/
theorem InOrder.reverse_of_flip {ds : List Direction} {keys : List (List Value)} {part places flipped : List Nat}
    (h : InOrder ds keys part places) (hflip : InOrder (ds.map Direction.flip) keys part flipped)
    (hties : ∀ i ∈ part, ∀ j ∈ part, TiedAt keys i j → i = j) : flipped = places.reverse := by
  have hstrict : ∀ {ds' places'}, InOrder ds' keys part places' → places'.Pairwise (BeforeAt ds' keys) := by
    intro ds' places' h'
    refine h'.sorted.imp_of_mem ?_
    rintro i j hi hj (hb | ⟨ht, hij⟩)
    · exact hb
    · exact absurd (hties i (h'.each.mem_iff.mp hi) j (h'.each.mem_iff.mp hj) ht) (Nat.ne_of_lt hij)
  have hreverse : places.reverse.Pairwise (BeforeAt (ds.map Direction.flip) keys) :=
    List.pairwise_reverse.mpr ((hstrict h).imp before_flip.mpr)
  refine List.Perm.eq_of_pairwise ?_ (hstrict hflip) hreverse
    (hflip.each.trans (h.each.symm.trans (List.reverse_perm places).symm))
  intro i j _ _ hij hji
  exact absurd hji hij.asymm

end JsonTables
