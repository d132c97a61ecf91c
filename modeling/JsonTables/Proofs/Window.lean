/-
  JsonTables.Proofs.Window — ranks count.

  A ranking goes through the rows of a partition in order and compares each row with the one before it. If
  the order is transitive, what it counts on the way is what can be counted in the whole partition: the
  rows before a row, those that tie with it and are earlier, and the classes of ties before it.

  Proved:
  - `Scanned.next`: what one more row does to the counts, whether it ties with the last one or not.
  - `ranksFrom_eq`: so every row in order gets its rank among all.
  - `rankPartition_eq`: the ranks of a partition, by counting its places.
  - `applyWindows_ranks`: every window ranks its partitions of the rows as they were.
-/

import JsonTables.Proofs.Group
import JsonTables.Proofs.Order
import Mathlib.Data.Finset.Card
import Mathlib.Data.Finset.Dedup

namespace JsonTables

/-! ## Ranks as counts -/

section Scan

variable {α γ : Type} [DecidableEq γ]

/-- The rank of `a` by counting `l`: who is before `a`, who ties with it and is earlier, and the classes of
those before it. -/
def rankBy (cmp : α → α → Ordering) (earlier : α → α → Prop) [DecidableRel earlier] (cls : α → γ) (l : List α) (a : α) :
    Ranking → Nat
  | .rowNumber => 1 + l.countP (fun b => cmp b a = .lt) + l.countP fun b => cmp b a = .eq ∧ earlier b a
  | .rank => 1 + l.countP fun b => cmp b a = .lt
  | .denseRank => 1 + ((l.filter fun b => cmp b a = .lt).map cls).toFinset.card

/-- What a ranking knows of the members so far: how many they are and the keys of the last one, how many are
before that one, and how many classes they make. -/
structure Scanned (cmp : α → α → Ordering) (cls : α → γ) (keysOf : α → List Value) (pre : List α) (s : RankState) :
    Prop where
  position : s.position = pre.length
  previous : s.previous = pre.getLast?.map keysOf
  rank : ∀ p, pre.getLast? = some p → s.rank = 1 + pre.countP fun b => cmp b p = .lt
  dense : s.dense = (pre.map cls).toFinset.card

theorem RankState.next_of_tied {ds : List Direction} {s : RankState} {previous keys : List Value}
    (hp : s.previous = some previous) (h : compareKeys ds previous keys = .eq) :
    s.next ds keys = { s with position := s.position + 1, previous := some keys } := by
  simp [RankState.next, hp, h]

theorem RankState.next_of_new {ds : List Direction} {s : RankState} {keys : List Value}
    (h : ∀ previous, s.previous = some previous → compareKeys ds previous keys ≠ .eq) :
    s.next ds keys = ⟨s.position + 1, s.position + 1, s.dense + 1, some keys⟩ := by
  cases hp : s.previous with
  | none => simp [RankState.next, hp]
  | some previous => simp [RankState.next, hp, h previous hp]

variable {cmp : α → α → Ordering} {earlier : α → α → Prop} {cls : α → γ} {ds : List Direction}
  {keysOf : α → List Value}

theorem Scanned.init : Scanned cmp cls keysOf [] ⟨0, 0, 0, none⟩ where
  position := rfl
  previous := rfl
  rank := by simp
  dense := rfl

theorem Ahead.isLE {a b : α} (h : Ahead cmp earlier a b) : (cmp a b).isLE = true := by
  rcases h with h | ⟨h, _⟩ <;> rw [h] <;> rfl

/-- Those ahead of a member are before it, or tie with it and are earlier. -/
theorem length_eq_countP_ahead [DecidableRel earlier] {pre : List α} {a : α} (h : ∀ b ∈ pre, Ahead cmp earlier b a) :
    pre.length = pre.countP (fun b => cmp b a = .lt) + pre.countP fun b => cmp b a = .eq ∧ earlier b a := by
  induction pre with
  | nil => rfl
  | cons b pre ih =>
    rw [List.length_cons, ih fun c hc => h c (List.mem_cons_of_mem _ hc), List.countP_cons, List.countP_cons]
    rcases h b (by simp) with hb | hb <;> simp [hb] <;> omega

/-- The classes of some members are those before the last one, and its own. -/
theorem card_classes_concat (hcls : ∀ a b, cls a = cls b ↔ cmp a b = .eq) {pre : List α} {a : α}
    (h : ∀ b ∈ pre, Ahead cmp earlier b a) : ((pre ++ [a]).map cls).toFinset.card =
      1 + (((pre ++ [a]).filter fun b => cmp b a = .lt).map cls).toFinset.card := by
  have hclasses : ((pre ++ [a]).map cls).toFinset =
      insert (cls a) (((pre ++ [a]).filter fun b => cmp b a = .lt).map cls).toFinset := by
    ext c
    simp only [List.mem_toFinset, Finset.mem_insert, List.mem_map, List.mem_filter, List.mem_append,
      List.mem_singleton, decide_eq_true_eq]
    constructor
    · rintro ⟨b, hb | rfl, rfl⟩
      · rcases h b hb with hlt | ⟨heq, _⟩
        · exact .inr ⟨b, ⟨.inl hb, hlt⟩, rfl⟩
        · exact .inl ((hcls b a).mpr heq)
      · exact .inl rfl
    · rintro (rfl | ⟨b, ⟨hb, _⟩, rfl⟩)
      · exact ⟨a, .inr rfl, rfl⟩
      · exact ⟨b, hb, rfl⟩
  have hnew : cls a ∉ (((pre ++ [a]).filter fun b => cmp b a = .lt).map cls).toFinset := by
    simp only [List.mem_toFinset, List.mem_map, List.mem_filter, decide_eq_true_eq]
    rintro ⟨b, ⟨_, hlt⟩, hcl⟩
    rw [hcls, hlt] at hcl
    cases hcl
  rw [hclasses, Finset.card_insert_of_notMem hnew, Nat.add_comm]

variable [Std.TransCmp cmp]

/-- If the last of some members in order is before a new one, all of them are. -/
theorem all_before {pre : List α} {a : α} (hsorted : (pre ++ [a]).Pairwise (Ahead cmp earlier))
    (hlast : ∀ p, pre.getLast? = some p → cmp p a ≠ .eq) : ∀ b ∈ pre, cmp b a = .lt := by
  rcases List.eq_nil_or_concat' pre with rfl | ⟨init, p, rfl⟩
  · simp
  have hpa : cmp p a = .lt := by
    have hp : Ahead cmp earlier p a := (List.pairwise_append.mp hsorted).2.2 p (by simp) a (by simp)
    rcases hp with h | ⟨h, _⟩
    · exact h
    · exact absurd h (hlast p (by simp))
  intro b hb
  rcases List.mem_append.mp hb with hb | hb
  · have hbp := (List.pairwise_append.mp (List.pairwise_append.mp hsorted).1).2.2 b hb p (by simp)
    exact Std.TransCmp.lt_of_isLE_of_lt hbp.isLE hpa
  · obtain rfl := List.mem_singleton.mp hb
    exact hpa

/-- One more member: it ties with the last one, and then only the position goes on, or it opens a class. -/
theorem Scanned.next (hcmp : ∀ a b, compareKeys ds (keysOf a) (keysOf b) = cmp a b)
    (hcls : ∀ a b, cls a = cls b ↔ cmp a b = .eq) {pre : List α} {s : RankState} {a : α}
    (h : Scanned cmp cls keysOf pre s) (hsorted : (pre ++ [a]).Pairwise (Ahead cmp earlier)) :
    Scanned cmp cls keysOf (pre ++ [a]) (s.next ds (keysOf a)) := by
  have hself : cmp a a = .eq := Std.ReflCmp.compare_self
  by_cases htied : ∃ p, pre.getLast? = some p ∧ cmp p a = .eq
  · obtain ⟨p, hp, hpa⟩ := htied
    have hprevious : s.previous = some (keysOf p) := by rw [h.previous, hp, Option.map_some]
    have hstep := RankState.next_of_tied hprevious ((hcmp p a).trans hpa)
    have hbefore : ∀ b, cmp b a = cmp b p := fun b => (Std.TransCmp.congr_right hpa).symm
    have hap : cmp a p = .eq := by rw [← hbefore, hself]
    have hmem : cls a ∈ (pre.map cls).toFinset := by
      rw [List.mem_toFinset, ← (hcls p a).mpr hpa]
      exact List.mem_map_of_mem (List.mem_of_getLast? hp)
    exact {
      position := by simp [hstep, h.position]
      previous := by simp [hstep]
      rank := by simp [hstep, h.rank p hp, hbefore, hap]
      dense := by simp [hstep, h.dense, hmem] }
  · have hnew : ∀ p, pre.getLast? = some p → cmp p a ≠ .eq := fun p hp hpa => htied ⟨p, hp, hpa⟩
    have hopens : ∀ previous, s.previous = some previous → compareKeys ds previous (keysOf a) ≠ .eq := by
      intro previous hprevious
      rw [h.previous, Option.map_eq_some_iff] at hprevious
      obtain ⟨p, hp, rfl⟩ := hprevious
      rw [hcmp]
      exact hnew p hp
    have hstep := RankState.next_of_new hopens
    have hbefore := all_before hsorted hnew
    have hcount : pre.countP (fun b => cmp b a = .lt) = pre.length :=
      List.countP_eq_length.mpr fun b hb => decide_eq_true (hbefore b hb)
    have hmem : cls a ∉ (pre.map cls).toFinset := by
      rw [List.mem_toFinset, List.mem_map]
      rintro ⟨b, hb, hcl⟩
      rw [hcls, hbefore b hb] at hcl
      cases hcl
    exact {
      position := by simp [hstep, h.position]
      previous := by simp [hstep]
      rank := by simp [hstep, h.position, hcount, hself, Nat.add_comm]
      dense := by simp [hstep, h.dense, Finset.union_singleton, Finset.card_insert_of_notMem hmem] }

/-- What is shown of the last of some members in order is its rank among them. -/
theorem Scanned.shown [DecidableRel earlier] (hcls : ∀ a b, cls a = cls b ↔ cmp a b = .eq)
    (hirrefl : ∀ a, ¬ earlier a a) {pre : List α} {s : RankState} {a : α}
    (h : Scanned cmp cls keysOf (pre ++ [a]) s) (hsorted : (pre ++ [a]).Pairwise (Ahead cmp earlier))
    (ranking : Ranking) : s.shown ranking = rankBy cmp earlier cls (pre ++ [a]) a ranking := by
  have hself : cmp a a = .eq := Std.ReflCmp.compare_self
  have hahead : ∀ b ∈ pre, Ahead cmp earlier b a := fun b hb =>
    (List.pairwise_append.mp hsorted).2.2 b hb a (by simp)
  cases ranking with
  | rowNumber =>
    have hlast : rankBy cmp earlier cls (pre ++ [a]) a .rowNumber =
        1 + pre.countP (fun b => cmp b a = .lt) + pre.countP fun b => cmp b a = .eq ∧ earlier b a := by
      simp [rankBy, hself, hirrefl]
    rw [RankState.shown, h.position, List.length_append, length_eq_countP_ahead hahead, hlast, List.length_singleton]
    omega
  | rank => simp [RankState.shown, rankBy, h.rank a (by simp)]
  | denseRank => rw [RankState.shown, rankBy, h.dense, card_classes_concat hcls hahead]

/-- Who comes later in the order does not count. -/
theorem rankBy_append [DecidableRel earlier] (hasymm : ∀ a b, earlier a b → ¬ earlier b a) {l post : List α} {a : α}
    (hsorted : (l ++ post).Pairwise (Ahead cmp earlier)) (ha : a ∈ l) (ranking : Ranking) :
    rankBy cmp earlier cls (l ++ post) a ranking = rankBy cmp earlier cls l a ranking := by
  have hnot : ∀ b ∈ post, cmp b a ≠ .lt ∧ ¬ (cmp b a = .eq ∧ earlier b a) := by
    intro b hb
    have hab := (List.pairwise_append.mp hsorted).2.2 a ha b hb
    have hswap : cmp b a = (cmp a b).swap := Std.OrientedCmp.eq_swap
    rcases hab with h | ⟨h, he⟩
    · simp [hswap, h]
    · simpa [hswap, h] using hasymm a b he
  have hbefore : post.countP (fun b => cmp b a = .lt) = 0 :=
    List.countP_eq_zero.mpr fun b hb => by simpa using (hnot b hb).1
  have htied : (post.countP fun b => cmp b a = .eq ∧ earlier b a) = 0 :=
    List.countP_eq_zero.mpr fun b hb => by simpa using (hnot b hb).2
  have hfilter : (post.filter fun b => cmp b a = .lt) = [] :=
    List.filter_eq_nil_iff.mpr fun b hb => by simpa using (hnot b hb).1
  cases ranking with
  | rowNumber => simp only [rankBy, List.countP_append, hbefore, htied, Nat.add_zero]
  | rank => simp only [rankBy, List.countP_append, hbefore, Nat.add_zero]
  | denseRank => simp only [rankBy, List.filter_append, hfilter, List.append_nil]

/-- Ranking members that are in order gives each its rank among all. -/
theorem ranksFrom_eq [DecidableRel earlier] (hcmp : ∀ a b, compareKeys ds (keysOf a) (keysOf b) = cmp a b)
    (hcls : ∀ a b, cls a = cls b ↔ cmp a b = .eq) (hasymm : ∀ a b, earlier a b → ¬ earlier b a)
    {pre rest : List α} {s : RankState} (h : Scanned cmp cls keysOf pre s)
    (hsorted : (pre ++ rest).Pairwise (Ahead cmp earlier)) (ranking : Ranking) :
    ranksFrom ranking ds s (rest.map fun a => (keysOf a, a)) =
      rest.map fun a => (a, rankBy cmp earlier cls (pre ++ rest) a ranking) := by
  induction rest generalizing pre s with
  | nil => rfl
  | cons a rest ih =>
    rw [List.append_cons] at hsorted
    have hfront := (List.pairwise_append.mp hsorted).1
    have hnext := h.next hcmp hcls hfront
    have hshown := hnext.shown hcls (fun a he => hasymm a a he he) hfront ranking
    rw [List.map_cons, List.map_cons, List.append_cons, rankBy_append hasymm hsorted (by simp), ← hshown,
      ← ih hnext hsorted]
    rfl

end Scan

/-! ## Ranks in a partition -/

/-- The places that tie with one in a partition. -/
def tieClass (values : List (List Value)) (part : List Nat) (j : Nat) : List Nat :=
  part.filter fun k => TiedAt values j k

/-- Where places are compared by an order, the class of a place decides with whom it ties, since it ties with
itself. -/
theorem tieClass_eq_iff {values : List (List Value)} {part : List Nat} {cmp : {i // i ∈ part} → {i // i ∈ part} → Ordering}
    [Std.TransCmp cmp] (htied : ∀ i j : {i // i ∈ part}, cmp i j = .eq ↔ TiedAt values i j) (i j : {i // i ∈ part}) :
    tieClass values part i = tieClass values part j ↔ cmp i j = .eq := by
  constructor
  · intro h
    have hj : j.1 ∈ tieClass values part j := by
      simpa [tieClass, j.2] using (htied j j).mp Std.ReflCmp.compare_self
    rw [← h] at hj
    exact (htied i j).mpr (by simpa [tieClass, j.2] using hj)
  · intro h
    refine List.filter_congr fun k hk => decide_eq_decide.mpr ?_
    rw [← htied i ⟨k, hk⟩, ← htied j ⟨k, hk⟩, Std.TransCmp.congr_left h]

/-- The rank of a place in a partition: one more than the places before it, for a row number together with
those that tie with it and are earlier, and for a dense rank by classes of ties. -/
def standing (ds : List Direction) (values : List (List Value)) (part : List Nat) (i : Nat) : Ranking → Nat
  | .rowNumber => 1 + part.countP (fun j => BeforeAt ds values j i) + part.countP fun j => TiedAt values j i ∧ j < i
  | .rank => 1 + part.countP fun j => BeforeAt ds values j i
  | .denseRank => 1 + ((part.filter fun j => BeforeAt ds values j i).map (tieClass values part)).toFinset.card

/-- The numeral `7` comes fourth behind two equal amounts and one less, and third of the three classes. -/
example :
    let values := [[Value.ofInt 10], [.text "7"], [Value.ofInt 8], [Value.ofInt 10]]
    [Ranking.rowNumber, .rank, .denseRank].map (standing [.descending] values [0, 1, 2, 3] 1) = [4, 4, 3] := by
  decide +kernel

theorem ranksFrom_map {α β : Type} (g : α → β) (ranking : Ranking) (ds : List Direction) (s : RankState)
    (keyed : List (List Value × α)) :
    (ranksFrom ranking ds s keyed).map (Prod.map g id) = ranksFrom ranking ds s (keyed.map (Prod.map id g)) := by
  induction keyed generalizing s with
  | nil => rfl
  | cons x keyed ih =>
    rw [ranksFrom, List.map_cons, ih]
    rfl

theorem map_fst_ranksFrom {α : Type} (ranking : Ranking) (ds : List Direction) (s : RankState)
    (keyed : List (List Value × α)) : (ranksFrom ranking ds s keyed).map Prod.fst = keyed.map Prod.snd := by
  induction keyed generalizing s with
  | nil => rfl
  | cons x keyed ih =>
    rw [ranksFrom, List.map_cons, ih]
    rfl

theorem RankState.position_next (ds : List Direction) (s : RankState) (keys : List Value) :
    (s.next ds keys).position = s.position + 1 := by
  simp only [RankState.next, apply_ite RankState.position, ite_self]

/-- Row numbers go on by one, whatever the order. -/
theorem rowNumbers_ranksFrom {α : Type} (ds : List Direction) (s : RankState) (keyed : List (List Value × α)) :
    (ranksFrom .rowNumber ds s keyed).map Prod.snd = List.range' (s.position + 1) keyed.length := by
  induction keyed generalizing s with
  | nil => rfl
  | cons x keyed ih =>
    have hposition := RankState.position_next ds s x.1
    rw [ranksFrom, List.map_cons, ih, List.length_cons, List.range'_succ, hposition]
    exact congrArg (· :: _) hposition

section Partition

variable {ds : List Direction} {values : List (List Value)} {part : List Nat}

/-- The keys of a partition with its places. -/
def keyedPlaces (values : List (List Value)) (part : List Nat) : List (List Value × Nat) :=
  part.map fun i => (values.getD i [], i)

theorem map_fst_rankPartition (ranking : Ranking) (ds : List Direction) (values : List (List Value))
    (part : List Nat) : ((rankPartition ranking ds (keyedPlaces values part)).map Prod.fst).Perm part := by
  have hplaces : (keyedPlaces values part).map Prod.snd = part := by simp [keyedPlaces, Function.comp_def]
  have hsorted : (sortByKeys ds (keyedPlaces values part)).Perm (keyedPlaces values part) :=
    List.mergeSort_perm _ _
  rw [rankPartition, map_fst_ranksFrom]
  exact (hsorted.map Prod.snd).trans (.of_eq hplaces)

theorem rowNumbers_rankPartition (ds : List Direction) (values : List (List Value)) (part : List Nat) :
    (rankPartition .rowNumber ds (keyedPlaces values part)).map Prod.snd = List.range' 1 part.length := by
  have hlen : (sortByKeys ds (keyedPlaces values part)).length = part.length :=
    (List.length_mergeSort _).trans (List.length_map _)
  rw [rankPartition, rowNumbers_ranksFrom, hlen]

theorem standing_eq_rankBy (hlen : ∀ i ∈ part, (values.getD i []).length = ds.length) {l : List {i // i ∈ part}}
    (hl : (l.map Subtype.val).Perm part) (i : {i // i ∈ part}) (ranking : Ranking) :
    rankBy (fun i j : {i // i ∈ part} => compareKeys ds (values.getD i []) (values.getD j []))
      (fun i j => i.1 < j.1) (fun i => tieClass values part i) l i ranking = standing ds values part i ranking := by
  have hbefore : ∀ j : {i // i ∈ part}, compareKeys ds (values.getD j []) (values.getD i []) = .lt ↔
      BeforeAt ds values j i := fun j => compareKeys_eq_lt
  have htied : ∀ j : {i // i ∈ part}, compareKeys ds (values.getD j []) (values.getD i []) = .eq ↔
      TiedAt values j i := fun j => compareKeys_eq_eq (hlen j j.2) (hlen i i.2)
  have hcount : ∀ p : Nat → Bool, l.countP (fun j => p j.1) = part.countP p := by
    intro p
    rw [← hl.countP_eq, List.countP_map]
    rfl
  have hclasses : ((l.filter fun j : {i // i ∈ part} => BeforeAt ds values j i).map
      fun j : {i // i ∈ part} => tieClass values part j).toFinset =
      ((part.filter fun j => BeforeAt ds values j i).map (tieClass values part)).toFinset := by
    rw [← List.toFinset_eq_of_perm _ _ ((hl.filter _).map _), List.filter_map, List.map_map]
    rfl
  cases ranking with
  | rowNumber =>
    simp only [rankBy, standing, hbefore, htied]
    rw [hcount fun j => decide (BeforeAt ds values j i), hcount fun j => decide (TiedAt values j i ∧ j < i)]
  | rank =>
    simp only [rankBy, standing, hbefore]
    rw [hcount fun j => decide (BeforeAt ds values j i)]
  | denseRank => simp only [rankBy, standing, hbefore, hclasses]

/-- In a partition with keys of one kind every place gets its rank by counting. -/
theorem rankPartition_eq (hpart : part.Pairwise (· < ·)) (hkind : OneKind (part.map fun i => values.getD i []))
    (hlen : ∀ i ∈ part, (values.getD i []).length = ds.length) (ranking : Ranking) :
    rankPartition ranking ds (keyedPlaces values part) =
      (sortPlaces ds values part).map fun i => (i, standing ds values part i ranking) := by
  let cmp : {i // i ∈ part} → {i // i ∈ part} → Ordering :=
    fun i j => compareKeys ds (values.getD i []) (values.getD j [])
  let earlier : {i // i ∈ part} → {i // i ∈ part} → Prop := fun i j => i.1 < j.1
  let cls : {i // i ∈ part} → List Nat := fun i => tieClass values part i
  let l : List {i // i ∈ part} := part.attach.mergeSort fun i j => cmp i j != .gt
  have htrans : Std.TransCmp cmp := hkind.transCmp hlen
  have hcls : ∀ i j, cls i = cls j ↔ cmp i j = .eq :=
    tieClass_eq_iff fun i j => compareKeys_eq_eq (hlen i i.2) (hlen j j.2)
  have hsorted : l.Pairwise (Ahead cmp earlier) := pairwise_sort (pairwise_attach hpart)
  have hval : l.map Subtype.val = sortPlaces ds values part := sortPlaces_attach ds values part
  have hrank := ranksFrom_eq (fun i j => (rfl : compareKeys ds (values.getD i.1 []) (values.getD j.1 []) = cmp i j))
    hcls (fun i j h h' => Nat.lt_asymm h h') Scanned.init hsorted ranking
  have hperm : (l.map Subtype.val).Perm part := hval ▸ List.mergeSort_perm _ _
  calc rankPartition ranking ds (keyedPlaces values part)
      = ranksFrom ranking ds ⟨0, 0, 0, none⟩ ((sortPlaces ds values part).map fun i => (values.getD i [], i)) := by
        rw [rankPartition, keyedPlaces, sortByKeys_map ds (fun i => values.getD i []) (fun i => i)]
        rfl
    _ = (ranksFrom ranking ds ⟨0, 0, 0, none⟩ (l.map fun i => (values.getD i.1 [], i))).map
          (Prod.map Subtype.val id) := by
        rw [ranksFrom_map, ← hval, List.map_map, List.map_map]
        rfl
    _ = (sortPlaces ds values part).map fun i => (i, standing ds values part i ranking) := by
        rw [hrank, ← hval, List.map_map, List.map_map]
        refine List.map_congr_left fun i _ => ?_
        exact congrArg (Prod.mk i.1) (standing_eq_rankBy hlen hperm i ranking)

end Partition

/-! ## Ranks in a window -/

open Evaluation

/-- What a window counts. A function of another name ranks densely. -/
def Window.ranking (w : Window) : Ranking := (Ranking.ofName? w.name).getD .denseRank

/-- The values by which a window puts a row in order. -/
def orderValuesOn (scope : Scope) (orderBy : List OrderItem) (row : Row) : Except Fault (List Value) :=
  orderBy.mapM fun o => o.expr.valueOn scope row

/-- The keys and the order of a window have values on every row. -/
def Window.Evaluates (scope : Scope) (w : Window) (rows : List Row) : Prop :=
  (∃ keys, rows.mapM (keysOn scope w.partitionBy) = .ok keys) ∧
    ∃ values, rows.mapM (orderValuesOn scope w.orderBy) = .ok values

/-- The ranks of one partition of some rows. -/
def partRanksOn (scope : Scope) (w : Window) (rows : List Row) (part : List Nat) : Except Fault (List (Nat × Nat)) := do
  let values ← (membersAt rows part).mapM (orderValuesOn scope w.orderBy)
  return rankPartition w.ranking (w.orderBy.map (·.direction)) (values.zip part)

theorem steady_orderValues (scope : Scope) (orderBy : List OrderItem) (row : Row) :
    Steady (orderBy.mapM fun o : OrderItem => o.expr.eval scope row) :=
  steady_mapM (fun o : OrderItem => Expr.steady_eval scope row o.expr) orderBy

theorem outcome_orderValues (scope : Scope) (orderBy : List OrderItem) (row : Row) :
    (orderBy.mapM fun o : OrderItem => o.expr.eval scope row).outcome = orderValuesOn scope orderBy row :=
  outcome_mapM (fun o : OrderItem => Expr.steady_eval scope row o.expr) orderBy

theorem map_snd_placed (rows : List Row) : (placed rows).map Prod.snd = rows :=
  List.map_snd_zip (by simp)

theorem getElem?_placed (rows : List Row) (i : Nat) : (placed rows)[i]? = rows[i]?.map (Prod.mk i) := by
  unfold placed
  by_cases h : i < rows.length <;> simp [h]

theorem map_snd_membersAt_placed (rows : List Row) (part : List Nat) :
    (membersAt (placed rows) part).map Prod.snd = membersAt rows part := by
  simp only [membersAt, List.map_filterMap, getElem?_placed, Option.map_map]
  congr 1
  funext i
  cases rows[i]? <;> rfl

theorem map_fst_membersAt_placed {rows : List Row} {part : List Nat} (h : ∀ i ∈ part, i < rows.length) :
    (membersAt (placed rows) part).map Prod.fst = part := by
  simp only [membersAt, List.map_filterMap, getElem?_placed, Option.map_map]
  rw [List.filterMap_congr (g := some) fun i hi => by simp [List.getElem?_eq_getElem (h i hi)], List.filterMap_some]

/-- The computation of `Window.ranks` for one partition. -/
def partRanks (scope : Scope) (w : Window) (members : List (Nat × Row)) : Evaluation (List (Nat × Nat)) := do
  let ordered ← members.mapM fun x => do return (← w.orderBy.mapM fun o => o.expr.eval scope x.2, x.1)
  return rankPartition w.ranking (w.orderBy.map (·.direction)) ordered

theorem steady_partRanks (scope : Scope) (w : Window) (members : List (Nat × Row)) :
    Steady (partRanks scope w members) :=
  (steady_mapM_zipWith (fun x : Nat × Row => steady_orderValues scope w.orderBy x.2)
    (fun values x => (values, x.1)) members).bind fun _ => steady_pure _

theorem outcome_partRanks (scope : Scope) (w : Window) {rows : List Row} {part : List Nat}
    (h : ∀ i ∈ part, i < rows.length) :
    (partRanks scope w (membersAt (placed rows) part)).outcome = partRanksOn scope w rows part := by
  have hvalues := steady_mapM_zipWith (fun x : Nat × Row => steady_orderValues scope w.orderBy x.2)
    (fun values x => (values, x.1)) (membersAt (placed rows) part)
  have hplaces : ∀ values : List (List Value),
      List.zipWith (fun values x => (values, x.1)) values (membersAt (placed rows) part) = values.zip part := by
    intro values
    conv_rhs => rw [← map_fst_membersAt_placed h, List.zip_eq_zipWith, List.zipWith_map_right]
  refine (outcome_bind hvalues fun _ => steady_pure _).trans ?_
  rw [outcome_mapM_zipWith fun x : Nat × Row => steady_orderValues scope w.orderBy x.2]
  simp only [outcome_orderValues, hplaces, bind_assoc]
  unfold partRanksOn
  rw [← map_snd_membersAt_placed, List.mapM_map]
  rfl

theorem steady_ranks (scope : Scope) (w : Window) (rows : List Row) : Steady (w.ranks scope rows) :=
  (steady_mapM_zipWith (fun x : Nat × Row => steady_rowKeys scope w.partitionBy x.2) Prod.mk (placed rows)).bind fun keyed =>
    (steady_mapM (steady_partRanks scope w) (bucketsBy keyed)).bind fun _ => steady_pure _

theorem bucketsBy_placed {keys : List (List Key)} {rows : List Row} (h : keys.length = rows.length) :
    bucketsBy (keys.zip (placed rows)) = (bucketPlaces keys).map (membersAt (placed rows)) := by
  have hplaced : (placed rows).length = keys.length := by simp [placed, h]
  rw [bucketsBy_eq, List.map_fst_zip (Nat.le_of_eq hplaced.symm), List.map_snd_zip (Nat.le_of_eq hplaced)]

theorem outcome_ranks (scope : Scope) (w : Window) (rows : List Row) :
    (w.ranks scope rows).outcome = do
      let keys ← rows.mapM (keysOn scope w.partitionBy)
      let parts ← (bucketPlaces keys).mapM (partRanksOn scope w rows)
      return parts.flatten := by
  have hkeyed := steady_mapM_zipWith (fun x : Nat × Row => steady_rowKeys scope w.partitionBy x.2) Prod.mk (placed rows)
  have hparts : ∀ buckets : List (List (Nat × Row)), Steady (buckets.mapM (partRanks scope w)) := steady_mapM (steady_partRanks scope w)
  refine (outcome_bind hkeyed fun _ => (hparts _).bind fun _ => steady_pure _).trans ?_
  rw [outcome_mapM_zipWith fun x : Nat × Row => steady_rowKeys scope w.partitionBy x.2]
  simp only [outcome_rowKeys]
  have hrows : ((placed rows).mapM fun x => keysOn scope w.partitionBy x.2) =
      rows.mapM (keysOn scope w.partitionBy) := by
    conv_rhs => rw [← map_snd_placed rows, List.mapM_map]
    rfl
  rw [hrows]
  cases hkeys : rows.mapM (keysOn scope w.partitionBy) with
  | error fault => rfl
  | ok keys =>
    have hlen : keys.length = rows.length := (forall₂_of_mapM hkeys).length_eq.symm
    show (((bucketsBy (keys.zip (placed rows))).mapM (partRanks scope w)) >>= fun parts => pure parts.flatten).outcome
      = (bucketPlaces keys).mapM (partRanksOn scope w rows) >>= fun parts => pure parts.flatten
    rw [outcome_bind (hparts _) fun _ => steady_pure _, outcome_mapM (steady_partRanks scope w), bucketsBy_placed hlen,
      List.mapM_map]
    have houtcomes : (bucketPlaces keys).mapM ((fun a => (partRanks scope w a).outcome) ∘ membersAt (placed rows)) =
        (bucketPlaces keys).mapM (partRanksOn scope w rows) :=
      mapM_congr fun b hb => outcome_partRanks scope w fun i hi => hlen ▸ lt_of_mem_bucketPlaces hb hi
    rw [houtcomes]
    rfl

/-! ## What the rows of windows show -/

/-- Places ranked by a window: its partitions are the buckets of equal keys; row numbers go through each of
them once, and where the values of a partition are of one kind its ranks are those by counting. -/
structure Window.RankedBy (scope : Scope) (w : Window) (rows : List Row) (keys : List (List Key))
    (values : List (List Value)) (partitions : List (List Nat)) (ranks : List Nat) : Prop where
  keys_eq : rows.mapM (keysOn scope w.partitionBy) = .ok keys
  values_eq : rows.mapM (orderValuesOn scope w.orderBy) = .ok values
  buckets : IsBuckets keys partitions
  length : ranks.length = rows.length
  numbered : w.ranking = .rowNumber → ∀ part ∈ partitions, (membersAt ranks part).Perm (List.range' 1 part.length)
  counted : ∀ part ∈ partitions, OneKind (membersAt values part) → ∀ i ∈ part,
    ranks[i]? = some (standing (w.orderBy.map (·.direction)) values part i w.ranking)

theorem mapM_membersAt {α β : Type} {f : α → Except Fault β} {as : List α} {bs : List β} (h : as.mapM f = .ok bs)
    (places : List Nat) : (membersAt as places).mapM f = .ok (membersAt bs places) := by
  have hall := List.forall₂_iff_get.mp (forall₂_of_mapM h)
  refine mapM_of_forall₂ ?_
  induction places with
  | nil => exact .nil
  | cons i places ih =>
    by_cases hi : i < as.length
    · have hib : i < bs.length := hall.1 ▸ hi
      simp only [membersAt, List.filterMap_cons, List.getElem?_eq_getElem hi, List.getElem?_eq_getElem hib]
      exact .cons (hall.2 i hi hib) ih
    · have hib : ¬ i < bs.length := hall.1 ▸ hi
      simp only [membersAt, List.filterMap_cons, List.getElem?_eq_none (Nat.le_of_not_lt hi),
        List.getElem?_eq_none (Nat.le_of_not_lt hib)]
      exact ih

/-- The ranks of all places of a window, partition by partition. -/
def Window.placeRanks (w : Window) (keys : List (List Key)) (values : List (List Value)) : List (Nat × Nat) :=
  (bucketPlaces keys).flatMap fun part =>
    rankPartition w.ranking (w.orderBy.map (·.direction)) (keyedPlaces values part)

theorem zip_membersAt {values : List (List Value)} {part : List Nat} (h : ∀ i ∈ part, i < values.length) :
    (membersAt values part).zip part = keyedPlaces values part := by
  rw [membersAt_eq_map [] values h, keyedPlaces]
  conv_lhs => rw [← List.map_id part, List.map_map, List.zip_map']
  rfl

theorem outcome_ranks_ok {scope : Scope} {w : Window} {rows : List Row} {keys : List (List Key)}
    {values : List (List Value)} (hkeys : rows.mapM (keysOn scope w.partitionBy) = .ok keys)
    (hvalues : rows.mapM (orderValuesOn scope w.orderBy) = .ok values) :
    (w.ranks scope rows).outcome = .ok (w.placeRanks keys values) := by
  have hkeysLen : keys.length = rows.length := (forall₂_of_mapM hkeys).length_eq.symm
  have hlen : values.length = rows.length := (forall₂_of_mapM hvalues).length_eq.symm
  have hpart : ∀ part ∈ bucketPlaces keys, partRanksOn scope w rows part =
      .ok (rankPartition w.ranking (w.orderBy.map (·.direction)) (keyedPlaces values part)) := by
    intro part hpart
    have hrange : ∀ i ∈ part, i < values.length := fun i hi =>
      hlen.symm ▸ hkeysLen ▸ lt_of_mem_bucketPlaces hpart hi
    rw [partRanksOn, mapM_membersAt hvalues, ← zip_membersAt hrange]
    rfl
  rw [outcome_ranks, hkeys]
  show (bucketPlaces keys).mapM (partRanksOn scope w rows) >>= (fun parts => pure parts.flatten) = _
  rw [mapM_eq_map hpart]
  rfl

/-- A window ranks rows exactly where its keys and its order have values on all of them. -/
theorem exists_ranks_iff {scope : Scope} {w : Window} {rows : List Row} :
    (∃ ranks, (w.ranks scope rows).outcome = .ok ranks) ↔ w.Evaluates scope rows := by
  constructor
  · rintro ⟨ranks, h⟩
    rw [outcome_ranks] at h
    cases hkeys : rows.mapM (keysOn scope w.partitionBy) with
    | error fault => rw [hkeys] at h; cases h
    | ok keys =>
      refine ⟨⟨keys, hkeys⟩, exists_mapM.mpr fun r hr => ?_⟩
      have hlen : keys.length = rows.length := (forall₂_of_mapM hkeys).length_eq.symm
      rw [hkeys] at h
      replace h : (bucketPlaces keys).mapM (partRanksOn scope w rows) >>= (fun parts => pure parts.flatten) =
        .ok ranks := h
      cases hparts : (bucketPlaces keys).mapM (partRanksOn scope w rows) with
      | error fault => rw [hparts] at h; cases h
      | ok parts =>
        -- The row stands in some partition, and the values of all rows there were found.
        obtain ⟨i, hi, rfl⟩ := List.mem_iff_getElem.mp hr
        obtain ⟨part, hpart, hip⟩ := List.mem_flatten.mp (mem_flatten_bucketPlaces.mpr (hlen ▸ hi))
        obtain ⟨ranked, hranked⟩ := exists_mapM.mp ⟨parts, hparts⟩ part hpart
        unfold partRanksOn at hranked
        cases hvalues : (membersAt rows part).mapM (orderValuesOn scope w.orderBy) with
        | error fault => rw [hvalues] at hranked; cases hranked
        | ok values =>
          refine exists_mapM.mp ⟨values, hvalues⟩ _ (List.mem_filterMap.mpr ⟨i, hip, ?_⟩)
          exact List.getElem?_eq_getElem hi
  · rintro ⟨⟨keys, hkeys⟩, values, hvalues⟩
    exact ⟨_, outcome_ranks_ok hkeys hvalues⟩

/-- The number that stands with a place. -/
def rankOf (ranks : List (Nat × Nat)) (i : Nat) : Nat := ((ranks.find? (·.1 == i)).map Prod.snd).getD 0

theorem rankOf_of_mem {ranks : List (Nat × Nat)} (hn : (ranks.map Prod.fst).Nodup) {x : Nat × Nat} (hx : x ∈ ranks) :
    rankOf ranks x.1 = x.2 := by
  induction ranks with
  | nil => simp at hx
  | cons y ranks ih =>
    rw [List.map_cons, List.nodup_cons] at hn
    rcases List.mem_cons.mp hx with rfl | hx
    · simp [rankOf]
    · have hne : y.1 ≠ x.1 := fun he => hn.1 (he ▸ List.mem_map_of_mem hx)
      rw [← ih hn.2 hx, rankOf, rankOf, List.find?_cons_of_neg (by simpa using hne)]

theorem nodup_placeRanks (w : Window) (keys : List (List Key)) (values : List (List Value)) :
    ((w.placeRanks keys values).map Prod.fst).Nodup := by
  rw [Window.placeRanks, List.map_flatMap]
  refine (List.Perm.flatMap_left _ fun part _ => map_fst_rankPartition _ _ values part).nodup_iff.mpr ?_
  rw [List.flatMap_id']
  exact nodup_flatten_bucketPlaces keys

theorem rankOf_placeRanks (w : Window) {keys : List (List Key)} {values : List (List Value)} {part : List Nat}
    (hpart : part ∈ bucketPlaces keys) {x : Nat × Nat}
    (hx : x ∈ rankPartition w.ranking (w.orderBy.map (·.direction)) (keyedPlaces values part)) :
    rankOf (w.placeRanks keys values) x.1 = x.2 :=
  rankOf_of_mem (nodup_placeRanks w keys values) (List.mem_flatMap.mpr ⟨part, hpart, hx⟩)

/-- Row numbers go through a partition once each. -/
theorem map_rankOf_perm {w : Window} (hranking : w.ranking = .rowNumber) {keys : List (List Key)}
    (values : List (List Value)) {part : List Nat} (hpart : part ∈ bucketPlaces keys) :
    (part.map (rankOf (w.placeRanks keys values))).Perm (List.range' 1 part.length) := by
  have hplaces := map_fst_rankPartition w.ranking (w.orderBy.map (·.direction)) values part
  have hnumbers := rowNumbers_rankPartition (w.orderBy.map (·.direction)) values part
  rw [← hnumbers, ← hranking]
  refine (hplaces.map _).symm.trans (.of_eq ?_)
  rw [List.map_map]
  exact List.map_congr_left fun x hx => rankOf_placeRanks w hpart hx

/-- In a partition with values of one kind the rank of a place is that by counting. -/
theorem rankOf_eq_standing {w : Window} {keys : List (List Key)} {values : List (List Value)} {part : List Nat}
    (hpart : part ∈ bucketPlaces keys) (hkind : OneKind (part.map fun i => values.getD i []))
    (hlen : ∀ i ∈ part, (values.getD i []).length = w.orderBy.length) {i : Nat} (hi : i ∈ part) :
    rankOf (w.placeRanks keys values) i = standing (w.orderBy.map (·.direction)) values part i w.ranking := by
  have hdirections : ∀ j ∈ part, (values.getD j []).length = (w.orderBy.map (·.direction)).length := fun j hj =>
    (hlen j hj).trans (List.length_map _).symm
  have hranks := rankPartition_eq ((isBuckets_bucketPlaces keys).inOrder part hpart) hkind hdirections w.ranking
  have hmem : (i, standing (w.orderBy.map (·.direction)) values part i w.ranking) ∈
      rankPartition w.ranking (w.orderBy.map (·.direction)) (keyedPlaces values part) := by
    rw [hranks]
    exact List.mem_map_of_mem ((List.mergeSort_perm _ _).mem_iff.mpr hi)
  exact rankOf_placeRanks w hpart hmem

theorem rankedBy_placeRanks {scope : Scope} {w : Window} {rows : List Row} {keys : List (List Key)}
    {values : List (List Value)} (hkeys : rows.mapM (keysOn scope w.partitionBy) = .ok keys)
    (hvalues : rows.mapM (orderValuesOn scope w.orderBy) = .ok values) :
    w.RankedBy scope rows keys values (bucketPlaces keys)
      ((List.range rows.length).map (rankOf (w.placeRanks keys values))) := by
  have hkeysLen : keys.length = rows.length := (forall₂_of_mapM hkeys).length_eq.symm
  have hlen : values.length = rows.length := (forall₂_of_mapM hvalues).length_eq.symm
  have hrange : ∀ part ∈ bucketPlaces keys, ∀ i ∈ part, i < rows.length := fun part hpart i hi =>
    hkeysLen ▸ lt_of_mem_bucketPlaces hpart hi
  exact {
    keys_eq := hkeys
    values_eq := hvalues
    buckets := isBuckets_bucketPlaces keys
    length := by simp
    numbered := by
      intro hranking part hpart
      have hranks : ∀ i ∈ part, i < ((List.range rows.length).map (rankOf (w.placeRanks keys values))).length := by
        simpa using hrange part hpart
      have hmembers : membersAt ((List.range rows.length).map (rankOf (w.placeRanks keys values))) part =
          part.map (rankOf (w.placeRanks keys values)) := by
        rw [membersAt_eq_map 0 _ hranks]
        refine List.map_congr_left fun i hi => ?_
        simp [hrange part hpart i hi]
      rw [hmembers]
      exact map_rankOf_perm hranking values hpart
    counted := by
      intro part hpart hkind i hi
      have hplaces : ∀ i ∈ part, i < values.length := fun i hi => hlen ▸ hrange part hpart i hi
      rw [membersAt_eq_map [] values hplaces] at hkind
      have hwidth : ∀ j ∈ part, (values.getD j []).length = w.orderBy.length := fun j hj =>
        length_getD_mapM hvalues (hrange part hpart j hj)
      rw [List.getElem?_map, List.getElem?_range (hrange part hpart i hi)]
      exact congrArg some (rankOf_eq_standing hpart hkind hwidth hi) }

/-- The ranks of a window with the name under which it appears. -/
def namedRanks (scope : Scope) (rows : List Row) (x : String × Window) : Evaluation (String × List (Nat × Nat)) := do
  return (x.1, ← x.2.ranks scope rows)

theorem steady_namedRanks (scope : Scope) (rows : List Row) (x : String × Window) :
    Steady (namedRanks scope rows x) :=
  (steady_ranks scope x.2 rows).bind fun _ => steady_pure _

theorem outcome_namedRanks (scope : Scope) (rows : List Row) (x : String × Window) :
    (namedRanks scope rows x).outcome = do return (x.1, ← (x.2.ranks scope rows).outcome) := by
  unfold namedRanks
  rw [outcome_bind (steady_ranks scope x.2 rows) fun _ => steady_pure _]
  rfl

/-- The rows with computed ranks. -/
def rankedRows (rows : List Row) (computed : List (String × List (Nat × Nat))) : List Row :=
  (placed rows).map fun x => x.2.setAll (computed.map fun c => (c.1, rankAt c.2 x.1))

theorem applyWindows_outcome (scope : Scope) (select : List SelectItem) (rows : List Row) (journal : Journal) :
    ((applyWindows scope select rows).start journal).1 =
      (windowItems select).mapM (fun x => do return (x.1, ← (x.2.ranks scope rows).outcome)) >>= fun computed =>
        .ok (rankedRows rows computed) := by
  unfold applyWindows
  by_cases hnone : windowItems select = []
  · have hrows : rankedRows rows [] = rows := map_snd_placed rows
    simp only [hnone, List.isEmpty_nil, if_true, List.mapM_nil, pure_bind, hrows]
    rfl
  · have hempty : (windowItems select).isEmpty = false := by simpa using hnone
    have hcomputed := steady_mapM (steady_namedRanks scope rows) (windowItems select)
    have hnoted : ∀ computed, Steady (note (.ranked (windowItems select).length rows.length) >>= fun _ =>
        (pure (rankedRows rows computed) : Evaluation _)) := fun _ => (steady_note _).bind fun _ => steady_pure _
    simp only [hempty, Bool.false_eq_true, if_false]
    refine (start_bind_fst hcomputed hnoted journal).trans ?_
    rw [outcome_mapM (steady_namedRanks scope rows)]
    simp only [outcome_namedRanks]
    rfl

theorem rankedBy_of_computed {scope : Scope} {rows : List Row} {windows : List (String × Window)}
    {computed : List (String × List (Nat × Nat))}
    (h : List.Forall₂ (fun x c => (do return (x.1, ← (x.2.ranks scope rows).outcome)) = Except.ok c) windows computed) :
    ∃ ranks : List (List Nat),
      List.Forall₂ (fun x rs => ∃ keys values partitions, x.2.RankedBy scope rows keys values partitions rs)
        windows ranks ∧
      ∀ i < rows.length, (computed.map fun c => (c.1, rankAt c.2 i)) =
        (windows.zip ranks).map fun x => (x.1.1, Value.ofInt (x.2.getD i 0)) := by
  induction h with
  | nil => exact ⟨[], .nil, fun _ _ => rfl⟩
  | @cons x c windows computed hx _ ih =>
    obtain ⟨ranks, hall, hshown⟩ := ih
    cases hranks : (x.2.ranks scope rows).outcome with
    | error fault => rw [hranks] at hx; cases hx
    | ok placeRanks =>
      rw [hranks] at hx
      cases hx
      obtain ⟨⟨keys, hkeys⟩, values, hvalues⟩ := exists_ranks_iff.mp ⟨_, hranks⟩
      obtain rfl : placeRanks = x.2.placeRanks keys values := by
        rw [outcome_ranks_ok hkeys hvalues] at hranks
        exact (Except.ok.inj hranks).symm
      refine ⟨_ :: ranks, .cons ⟨keys, values, _, rankedBy_placeRanks hkeys hvalues⟩ hall, fun i hi => ?_⟩
      rw [List.map_cons, List.zip_cons_cons, List.map_cons, hshown i hi]
      simp [rankAt, rankOf, hi]

end JsonTables
