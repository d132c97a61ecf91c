/-
  JsonTables.Proofs.Buckets — how a list falls apart by keys.

  A bucket is described by the places of its members in the list, so that equal members stay apart. The loop that
  makes the buckets keeps one for every key it has seen, in the order of first sight, with the members of that key
  so far: this is its invariant, `bucketsOf`.

  Proved:
  - `addToBucket_bucketsOf`: one round of the loop takes the buckets of some members to those with one member more.
  - `bucketsBy_eq_bucketsOf`: the loop ends with the buckets of all members.
  - `isBuckets_bucketPlaces`: every place lies in exactly one bucket, two places share one exactly where
    their keys are equal, a bucket keeps the order of the list, and buckets come in the order of their
    first members.
  - `bucketsBy_eq`: the members at those places are what grouping by key gives.
-/

import JsonTables.Group
import Mathlib.Data.List.Induction
import Mathlib.Data.List.Nodup

namespace JsonTables

/-! ## Buckets by place -/

/-- The places at which a key stands. -/
def placesOf {κ : Type} [DecidableEq κ] (keys : List κ) (k : κ) : List Nat :=
  (List.range keys.length).filter fun i => keys[i]? = some k

/-- The places of equal keys together, in the order in which the keys first appear. -/
def bucketPlaces {κ : Type} [DecidableEq κ] (keys : List κ) : List (List Nat) :=
  keys.eraseDups.map (placesOf keys)

/-- The members of a list at some places. -/
def membersAt {α : Type} (as : List α) (places : List Nat) : List α := places.filterMap fun i => as[i]?

/-- A division of the places of some keys into buckets of equal keys. -/
structure IsBuckets {κ : Type} (keys : List κ) (buckets : List (List Nat)) : Prop where
  /-- Every place lies in exactly one bucket, and once. -/
  each : buckets.flatten.Perm (List.range keys.length)
  nonempty : ∀ b ∈ buckets, b ≠ []
  /-- Inside a bucket the order is that of the list. -/
  inOrder : ∀ b ∈ buckets, b.Pairwise (· < ·)
  /-- Buckets come in the order of their first places. -/
  byFirst : (buckets.map fun b => b.headD 0).Pairwise (· < ·)
  shared : ∀ b ∈ buckets, ∀ c ∈ buckets, ∀ i ∈ b, ∀ j ∈ c, b = c ↔ keys[i]? = keys[j]?

/-! ## Members at places -/

section Members

variable {α : Type}

theorem membersAt_eq_map (d : α) (as : List α) {places : List Nat} (h : ∀ i ∈ places, i < as.length) :
    membersAt as places = places.map fun i => as.getD i d := by
  unfold membersAt
  rw [← List.filterMap_eq_map]
  refine List.filterMap_congr fun i hi => ?_
  simp [List.getElem?_eq_getElem (h i hi)]

theorem map_getD_range (d : α) (as : List α) : (List.range as.length).map (fun i => as.getD i d) = as := by
  refine List.ext_getElem (by simp) fun i hi hi' => ?_
  simp [List.getD_eq_getElem?_getD, List.getElem?_eq_getElem hi']

theorem membersAt_range (as : List α) : membersAt as (List.range as.length) = as := by
  rcases as with _ | ⟨a, as⟩
  · rfl
  · rw [membersAt_eq_map a _ fun i hi => List.mem_range.mp hi, map_getD_range]

theorem membersAt_map_succ (a : α) (as : List α) (places : List Nat) :
    membersAt (a :: as) (places.map (· + 1)) = membersAt as places := by
  simp [membersAt, List.filterMap_map]

end Members

/-! ## Buckets of equal keys -/

section Buckets

variable {κ α : Type} [DecidableEq κ]

theorem mem_placesOf {keys : List κ} {k : κ} {i : Nat} : i ∈ placesOf keys k ↔ keys[i]? = some k := by
  simp only [placesOf, List.mem_filter, List.mem_range, decide_eq_true_eq]
  constructor
  · intro h
    exact h.2
  · intro h
    exact ⟨(List.getElem?_eq_some_iff.mp h).1, h⟩

theorem placesOf_pairwise (keys : List κ) (k : κ) : (placesOf keys k).Pairwise (· < ·) :=
  List.pairwise_lt_range.filter _

theorem placesOf_cons (x : κ) (keys : List κ) (k : κ) :
    placesOf (x :: keys) k = (if x = k then [0] else []) ++ (placesOf keys k).map (· + 1) := by
  unfold placesOf
  rw [List.length_cons, List.range_succ_eq_map, List.filter_cons, List.filter_map]
  by_cases h : x = k <;> simp [h, Function.comp_def]

/-- The first place of a key, as the head of its places. -/
theorem headD_placesOf {keys : List κ} {k : κ} (h : k ∈ keys) : (placesOf keys k).headD 0 = keys.idxOf k := by
  induction keys with
  | nil => simp at h
  | cons x keys ih =>
    rw [placesOf_cons, List.idxOf_cons]
    by_cases hx : x = k
    · simp [hx]
    · have hk : k ∈ keys := by simpa [Ne.symm hx] using h
      have hne : placesOf keys k ≠ [] := by
        obtain ⟨i, hi⟩ := List.mem_iff_getElem?.mp hk
        exact List.ne_nil_of_mem (mem_placesOf.mpr hi)
      obtain ⟨i, is, his⟩ := List.exists_cons_of_ne_nil hne
      have hbeq : (x == k) = false := by simpa using hx
      simpa [hx, hbeq, his] using ih hk

/-- The members of a key, in the order of the list. -/
def membersOf (keyed : List (κ × α)) (k : κ) : List α := (keyed.filter (·.1 = k)).map Prod.snd

/-- The members of a key stand at its places. -/
theorem membersAt_placesOf (keyed : List (κ × α)) (k : κ) :
    membersAt (keyed.map Prod.snd) (placesOf (keyed.map Prod.fst) k) = membersOf keyed k := by
  induction keyed with
  | nil => rfl
  | cons x keyed ih =>
    rw [List.map_cons, List.map_cons, placesOf_cons]
    by_cases h : x.1 = k
    · have hsplit : membersAt (x.2 :: keyed.map Prod.snd) ([0] ++ (placesOf (keyed.map Prod.fst) k).map (· + 1)) =
          x.2 :: membersAt (x.2 :: keyed.map Prod.snd) ((placesOf (keyed.map Prod.fst) k).map (· + 1)) := by
        simp [membersAt]
      rw [if_pos h, hsplit, membersAt_map_succ, ih]
      simp [membersOf, h]
    · rw [if_neg h, List.nil_append, membersAt_map_succ, ih]
      simp [membersOf, h]

/-- The distinct members of a list come in the order of their first places. -/
theorem eraseDups_pairwise_idxOf (keys : List κ) :
    keys.eraseDups.Pairwise fun a b => keys.idxOf a < keys.idxOf b := by
  induction keys using List.reverseRecOn with
  | nil => simp
  | append_singleton keys x ih =>
    have hlift : keys.eraseDups.Pairwise fun a b => (keys ++ [x]).idxOf a < (keys ++ [x]).idxOf b := by
      refine ih.imp_of_mem ?_
      intro a b ha hb hab
      rw [List.mem_eraseDups] at ha hb
      rwa [List.idxOf_append_of_mem ha, List.idxOf_append_of_mem hb]
    rw [List.eraseDups_append]
    by_cases hx : x ∈ keys
    · simpa [List.removeAll, hx] using hlift
    · have hnew : ([x].removeAll keys).eraseDups = [x] := by simp [List.removeAll, hx, List.eraseDups_cons]
      rw [hnew, List.pairwise_append]
      refine ⟨hlift, List.pairwise_singleton _ _, ?_⟩
      intro a ha b hb
      rw [List.mem_eraseDups] at ha
      rw [List.mem_singleton.mp hb, List.idxOf_append_of_mem ha, List.idxOf_append_of_notMem hx]
      have := List.idxOf_lt_length_iff.mpr ha
      omega

theorem nodup_eraseDups (keys : List κ) : keys.eraseDups.Nodup :=
  (eraseDups_pairwise_idxOf keys).imp fun h he => by simp [he] at h

/-! ## The loop -/

/-- The buckets of some members by their keys, one for each key in the order of first sight. -/
def bucketsOf (keyed : List (κ × α)) : List (κ × List α) :=
  ((keyed.map Prod.fst).eraseDups).map fun k => (k, membersOf keyed k)

theorem addToBucket_of_mem {keys : List κ} (hkeys : keys.Nodup) (members : κ → List α) {key : κ} (a : α)
    (hkey : key ∈ keys) :
    addToBucket key a (keys.map fun k => (k, members k)) =
      keys.map fun k => (k, members k ++ if key = k then [a] else []) := by
  induction keys with
  | nil => cases hkey
  | cons k rest ih =>
    obtain ⟨hk, hrest⟩ := List.nodup_cons.mp hkeys
    rw [List.map_cons, List.map_cons, addToBucket]
    by_cases hkk : k = key
    · subst hkk
      have hothers : ∀ j ∈ rest, (j, members j) = (j, members j ++ if k = j then [a] else []) := by
        intro j hj
        have hne : k ≠ j := fun h => hk (h ▸ hj)
        rw [if_neg hne, List.append_nil]
      rw [if_pos rfl, if_pos rfl, List.map_congr_left hothers]
    · have hin : key ∈ rest := (List.mem_cons.mp hkey).resolve_left (Ne.symm hkk)
      rw [if_neg hkk, if_neg (Ne.symm hkk), List.append_nil, ih hrest hin]

theorem addToBucket_of_notMem {buckets : List (κ × List α)} {key : κ} (a : α) (hkey : key ∉ buckets.map Prod.fst) :
    addToBucket key a buckets = buckets ++ [(key, [a])] := by
  induction buckets with
  | nil => rfl
  | cons bucket rest ih =>
    rw [List.map_cons, List.mem_cons, not_or] at hkey
    rw [addToBucket, if_neg (Ne.symm hkey.1), ih hkey.2, List.cons_append]

theorem membersOf_concat (keyed : List (κ × α)) (x : κ × α) (k : κ) :
    membersOf (keyed ++ [x]) k = membersOf keyed k ++ if x.1 = k then [x.2] else [] := by
  by_cases h : x.1 = k <;> simp [membersOf, h]

theorem membersOf_eq_nil {keyed : List (κ × α)} {k : κ} (h : k ∉ keyed.map Prod.fst) : membersOf keyed k = [] := by
  rw [membersOf, List.map_eq_nil_iff, List.filter_eq_nil_iff]
  intro x hx hk
  exact h (List.mem_map.mpr ⟨x, hx, by simpa using hk⟩)

/-- One round of the loop. -/
theorem addToBucket_bucketsOf (keyed : List (κ × α)) (x : κ × α) :
    addToBucket x.1 x.2 (bucketsOf keyed) = bucketsOf (keyed ++ [x]) := by
  have hkeys : (bucketsOf keyed).map Prod.fst = (keyed.map Prod.fst).eraseDups := by
    simp [bucketsOf, Function.comp_def]
  have hcong : (keyed.map Prod.fst).eraseDups.map (fun k => (k, membersOf (keyed ++ [x]) k)) =
      (keyed.map Prod.fst).eraseDups.map fun k => (k, membersOf keyed k ++ if x.1 = k then [x.2] else []) :=
    List.map_congr_left fun k _ => by rw [membersOf_concat]
  by_cases hx : x.1 ∈ keyed.map Prod.fst
  · have hsame : ((keyed ++ [x]).map Prod.fst).eraseDups = (keyed.map Prod.fst).eraseDups := by
      rw [List.map_append, List.eraseDups_append]
      simp [List.removeAll, hx]
    rw [bucketsOf, addToBucket_of_mem (nodup_eraseDups _) _ _ (List.mem_eraseDups.mpr hx), bucketsOf, hsame, hcong]
  · have hmore : ((keyed ++ [x]).map Prod.fst).eraseDups = (keyed.map Prod.fst).eraseDups ++ [x.1] := by
      rw [List.map_append, List.eraseDups_append]
      simp [List.removeAll, hx, List.eraseDups_cons]
    have hothers : ∀ k ∈ (keyed.map Prod.fst).eraseDups, (k, membersOf keyed k) = (k, membersOf (keyed ++ [x]) k) := by
      intro k hk
      have hne : x.1 ≠ k := fun h => hx (h ▸ List.mem_eraseDups.mp hk)
      rw [membersOf_concat, if_neg hne, List.append_nil]
    have hnew : membersOf (keyed ++ [x]) x.1 = [x.2] := by
      rw [membersOf_concat, membersOf_eq_nil hx, if_pos rfl, List.nil_append]
    rw [addToBucket_of_notMem _ (by rwa [hkeys, List.mem_eraseDups]), bucketsOf, bucketsOf, hmore, List.map_append,
      List.map_singleton, hnew, List.map_congr_left hothers]

/-- The loop ends with the buckets of all members. -/
theorem bucketsBy_eq_bucketsOf (keyed : List (κ × α)) : bucketsBy keyed = (bucketsOf keyed).map Prod.snd := by
  have hloop : keyed.foldl (fun buckets x => addToBucket x.1 x.2 buckets) [] = bucketsOf keyed := by
    induction keyed using List.reverseRecOn with
    | nil => rfl
    | append_singleton keyed x ih =>
      rw [List.foldl_append, ih, List.foldl_cons, List.foldl_nil, addToBucket_bucketsOf]
  rw [bucketsBy, hloop]

/-- What is in a bucket was put there under some key. -/
theorem mem_bucketsBy {keyed : List (κ × α)} {bucket : List α} (hbucket : bucket ∈ bucketsBy keyed) {a : α}
    (ha : a ∈ bucket) : ∃ k, (k, a) ∈ keyed := by
  rw [bucketsBy_eq_bucketsOf, bucketsOf, List.map_map] at hbucket
  obtain ⟨k, -, rfl⟩ := List.mem_map.mp hbucket
  obtain ⟨x, hx, rfl⟩ := List.mem_map.mp ha
  exact ⟨x.1, (List.mem_filter.mp hx).1⟩

/-- The buckets of a keyed list hold what stands at the places of the buckets of its keys. -/
theorem bucketsBy_eq (keyed : List (κ × α)) :
    bucketsBy keyed = (bucketPlaces (keyed.map Prod.fst)).map (membersAt (keyed.map Prod.snd)) := by
  rw [bucketsBy_eq_bucketsOf, bucketsOf, bucketPlaces, List.map_map, List.map_map]
  apply List.map_congr_left
  intro k _
  exact (membersAt_placesOf keyed k).symm

/-! ## The buckets of places -/

theorem mem_bucketPlaces {keys : List κ} {b : List Nat} (hb : b ∈ bucketPlaces keys) :
    ∃ k ∈ keys, b = placesOf keys k := by
  obtain ⟨k, hk, rfl⟩ := List.mem_map.mp hb
  exact ⟨k, List.mem_eraseDups.mp hk, rfl⟩

theorem nodup_flatten_bucketPlaces (keys : List κ) : (bucketPlaces keys).flatten.Nodup := by
  refine List.nodup_flatten.mpr ⟨?_, ?_⟩
  · intro b hb
    obtain ⟨k, _, rfl⟩ := mem_bucketPlaces hb
    exact (placesOf_pairwise keys k).imp Nat.ne_of_lt
  · refine List.pairwise_map.mpr ((nodup_eraseDups keys).imp ?_)
    intro k l hkl i hi hj
    rw [mem_placesOf] at hi hj
    rw [hi] at hj
    exact hkl (Option.some.inj hj)

theorem mem_flatten_bucketPlaces {keys : List κ} {i : Nat} :
    i ∈ (bucketPlaces keys).flatten ↔ i < keys.length := by
  constructor
  · intro h
    obtain ⟨b, hb, hi⟩ := List.mem_flatten.mp h
    obtain ⟨k, _, rfl⟩ := mem_bucketPlaces hb
    exact (List.getElem?_eq_some_iff.mp (mem_placesOf.mp hi)).1
  · intro h
    have hget : keys[i]? = some keys[i] := List.getElem?_eq_getElem h
    have hmem : placesOf keys keys[i] ∈ bucketPlaces keys :=
      List.mem_map_of_mem (List.mem_eraseDups.mpr (List.getElem_mem h))
    exact List.mem_flatten.mpr ⟨_, hmem, mem_placesOf.mpr hget⟩

theorem lt_of_mem_bucketPlaces {keys : List κ} {b : List Nat} (hb : b ∈ bucketPlaces keys) {i : Nat} (hi : i ∈ b) :
    i < keys.length :=
  mem_flatten_bucketPlaces.mp (List.mem_flatten_of_mem hb hi)

theorem isBuckets_bucketPlaces (keys : List κ) : IsBuckets keys (bucketPlaces keys) where
  each := by
    refine (List.perm_ext_iff_of_nodup (nodup_flatten_bucketPlaces keys) List.nodup_range).mpr ?_
    intro i
    rw [mem_flatten_bucketPlaces, List.mem_range]
  nonempty := by
    intro b hb
    obtain ⟨k, hk, rfl⟩ := mem_bucketPlaces hb
    obtain ⟨i, hi⟩ := List.mem_iff_getElem?.mp hk
    exact List.ne_nil_of_mem (mem_placesOf.mpr hi)
  inOrder := by
    intro b hb
    obtain ⟨k, _, rfl⟩ := mem_bucketPlaces hb
    exact placesOf_pairwise keys k
  byFirst := by
    rw [bucketPlaces, List.map_map]
    refine List.pairwise_map.mpr ((eraseDups_pairwise_idxOf keys).imp_of_mem ?_)
    intro k l hk hl hkl
    rw [List.mem_eraseDups] at hk hl
    show (placesOf keys k).headD 0 < (placesOf keys l).headD 0
    rwa [headD_placesOf hk, headD_placesOf hl]
  shared := by
    intro b hb c hc i hi j hj
    obtain ⟨k, _, rfl⟩ := mem_bucketPlaces hb
    obtain ⟨l, _, rfl⟩ := mem_bucketPlaces hc
    rw [mem_placesOf] at hi hj
    constructor
    · intro h
      have hil : keys[i]? = some l := mem_placesOf.mp (h ▸ mem_placesOf.mpr hi)
      rw [hil, hj]
    · intro h
      rw [hi, hj] at h
      rw [Option.some.inj h]

end Buckets

end JsonTables
