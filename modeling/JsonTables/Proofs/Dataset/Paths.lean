/-
  JsonTables.Proofs.Dataset.Paths — what the paths of a dataset lead to.

  A path spells some keys: the segments between its dots, but dollar signs in front of a segment do not count, nor
  does a segment of nothing else. It leads to what these keys lead to from the top of the dataset, each being a key
  of the mapping that the ones before it lead to. A first key `data` or `root` that the dataset lacks is passed over.
  This is said by relations here, and the functions that follow a path are shown to find just that.

  Proved:
  - `spells_iff`: a path spells one list of keys, the segments that count.
  - `segments_of_dollared`: dollar signs in front of segments, and segments of nothing else, do not count.
  - `leads_iff`: what a path leads to is what is found along its route.
  - `hasTable_iff`: a path has a table where it leads to a list of mappings.
  - `table_eq_error_iff`: a path that leads to no table is refused for what stands there.
-/

import JsonTables.Dataset.Basic
import JsonTables.Proofs.Expr.Text
import Mathlib.Data.List.Forall2
import Mathlib.Data.List.TakeWhile

namespace JsonTables.Dataset

/-! ## Dollar signs in paths -/

def dollars (n : Nat) : String := String.ofList (List.replicate n '$')

/-- The segment without the dollar signs in front. -/
def bare (s : String) : String := String.ofList (s.toList.dropWhile (· = '$'))

/-- Segments that come from others by dollar signs put in front of some, and by more segments that are dollar signs
alone or nothing. -/
inductive Dollared : List String → List String → Prop
  | nil : Dollared [] []
  | segment (n : Nat) (s : String) {old new : List String} : Dollared old new → Dollared (s :: old) ((dollars n ++ s) :: new)
  | inserted (n : Nat) {old new : List String} : Dollared old new → Dollared old (dollars n :: new)

/-- A key that is a segment of a path as it stands: it is not empty, and has no dot and no dollar sign in front. -/
structure IsSegment (key : String) : Prop where
  nonempty : key ≠ ""
  noDot : '.' ∉ key.toList
  noDollar : key.toList.head? ≠ some '$'

instance (key : String) : Decidable (IsSegment key) :=
  decidable_of_iff (key ≠ "" ∧ '.' ∉ key.toList ∧ key.toList.head? ≠ some '$')
    ⟨fun ⟨h, h', h''⟩ => ⟨h, h', h''⟩, fun h => ⟨h.nonempty, h.noDot, h.noDollar⟩⟩

theorem bare_dollars_append (n : Nat) (s : String) : bare (dollars n ++ s) = bare s := by
  have hdrop : (List.replicate n '$' ++ s.toList).dropWhile (· = '$') = s.toList.dropWhile (· = '$') :=
    List.dropWhile_append_of_pos fun c hc => by simp [List.eq_of_mem_replicate hc]
  rw [bare, bare, dollars, String.toList_append, String.toList_ofList, hdrop]

theorem bare_dollars (n : Nat) : bare (dollars n) = "" := by
  have h := bare_dollars_append n ""
  rwa [String.append_empty] at h

theorem dot_notMem_dollars_append {n : Nat} {s : String} (hs : '.' ∉ s.toList) : '.' ∉ (dollars n ++ s).toList := by
  rw [dollars, String.toList_append, String.toList_ofList, List.mem_append, not_or]
  exact ⟨fun h => absurd (List.eq_of_mem_replicate h) (by decide), hs⟩

namespace Dollared

variable {old new : List String}

theorem filter_bare (h : Dollared old new) : (new.map bare).filter (· ≠ "") = (old.map bare).filter (· ≠ "") := by
  induction h with
  | nil => rfl
  | segment n s _ ih => rw [List.map_cons, List.map_cons, List.filter_cons, List.filter_cons, bare_dollars_append, ih]
  | inserted n _ ih =>
    rw [List.map_cons, bare_dollars, List.filter_cons_of_neg (by simp)]
    exact ih

theorem dot_notMem (h : Dollared old new) (hold : ∀ s ∈ old, '.' ∉ s.toList) : ∀ s ∈ new, '.' ∉ s.toList := by
  induction h with
  | nil => exact hold
  | segment n s _ ih =>
    obtain ⟨hs, hold⟩ := List.forall_mem_cons.mp hold
    exact List.forall_mem_cons.mpr ⟨dot_notMem_dollars_append hs, ih hold⟩
  | inserted n _ ih =>
    have hn : '.' ∉ (dollars n ++ "").toList := dot_notMem_dollars_append (by simp)
    rw [String.append_empty] at hn
    exact List.forall_mem_cons.mpr ⟨hn, ih hold⟩

theorem ne_nil (h : Dollared old new) (hold : old ≠ []) : new ≠ [] := by
  cases h with
  | nil => exact hold
  | segment n s _ => exact List.cons_ne_nil _ _
  | inserted n _ => exact List.cons_ne_nil _ _

end Dollared

theorem IsSegment.bare_eq {s : String} (h : IsSegment s) : bare s = s := by
  have hdrop : s.toList.dropWhile (· = '$') = s.toList := by
    cases hs : s.toList with
    | nil => rfl
    | cons c cs =>
      have hc : c ≠ '$' := by
        rintro rfl
        exact h.noDollar (by rw [hs]; rfl)
      simp [hc]
  rw [bare, hdrop, String.ofList_toList]

/-- Keys that can stand in paths all count, as they are. -/
theorem filter_bare_eq {keys : List String} (h : ∀ s ∈ keys, IsSegment s) : (keys.map bare).filter (· ≠ "") = keys := by
  rw [(List.map_congr_left fun s hs => (h s hs).bare_eq).trans (List.map_id keys)]
  exact List.filter_eq_self.mpr fun s hs => by simpa using (h s hs).nonempty

theorem segments_eq (path : String) : segments path = ((pathSegments path).map bare).filter (· ≠ "") := by
  have hbare : (pathSegments path).map bare =
      ((Text.splitOn '.' path.toList).map fun s => s.dropWhile (· = '$')).map String.ofList := by
    rw [pathSegments, List.map_map, List.map_map]
    simp [Function.comp_def, bare]
  have hname (cs : List Char) : (!cs.isEmpty) = decide (String.ofList cs ≠ "") := by cases cs <;> simp
  rw [segments, hbare]
  refine Eq.trans (congrArg _ (List.filter_congr fun cs _ => hname cs)) ?_
  exact (List.filter_map (p := fun s => decide (s ≠ ""))).symm

/-- Dollar signs in front of segments, and segments of nothing else, do not count. -/
theorem segments_of_dollared {path : String} {new : List String} (h : Dollared (pathSegments path) new) :
    segments (".".intercalate new) = segments path := by
  have hdots : ∀ s ∈ new, '.' ∉ s.toList := h.dot_notMem fun s hs => dot_notMem_of_mem hs
  rw [segments_eq, pathSegments_intercalate (h.ne_nil (pathSegments_ne_nil path)) hdots, segments_eq, h.filter_bare]

theorem segments_intercalate {keys : List String} (h : ∀ s ∈ keys, IsSegment s) :
    segments (".".intercalate keys) = keys := by
  by_cases hne : keys = []
  · rw [hne]
    decide +kernel
  · rw [segments_eq, pathSegments_intercalate hne fun s hs => (h s hs).noDot, filter_bare_eq h]

/-! ## Keys that paths spell -/

/-- The keys that a path spells: it is made of them, but for dollar signs that do not count. -/
def Spells (path : String) (keys : List String) : Prop :=
  (∀ key ∈ keys, IsSegment key) ∧ Dollared keys (pathSegments path)

theorem exists_dollars (s : String) : ∃ n, s = dollars n ++ bare s := by
  refine ⟨(s.toList.takeWhile (· = '$')).length, String.toList_inj.mp ?_⟩
  have hdollars : List.replicate (s.toList.takeWhile (· = '$')).length '$' = s.toList.takeWhile (· = '$') :=
    (List.eq_replicate_of_mem fun c hc => by simpa using List.mem_takeWhile_imp hc).symm
  rw [dollars, bare, String.toList_append, String.toList_ofList, String.toList_ofList, hdollars,
    List.takeWhile_append_dropWhile]

/-- What is left of segments is what they come from by dollar signs. -/
theorem dollared_filter_bare (segments : List String) : Dollared ((segments.map bare).filter (· ≠ "")) segments := by
  induction segments with
  | nil => exact .nil
  | cons s rest ih =>
    obtain ⟨n, hn⟩ := exists_dollars s
    rw [List.map_cons]
    by_cases hs : bare s = ""
    · rw [hs, String.append_empty] at hn
      rw [List.filter_cons_of_neg (by simpa using hs), hn]
      exact .inserted n ih
    · rw [List.filter_cons_of_pos (by simpa using hs)]
      conv in s :: rest => rw [hn]
      exact .segment n (bare s) ih

theorem isSegment_bare {s : String} (hs : bare s ≠ "") (hdot : '.' ∉ s.toList) : IsSegment (bare s) where
  nonempty := hs
  noDot := by
    rw [bare, String.toList_ofList]
    exact fun h => hdot ((List.dropWhile_suffix _).mem h)
  noDollar := by
    intro hhead
    have h := List.head?_dropWhile_not (fun c => decide (c = '$')) s.toList
    rw [bare, String.toList_ofList] at hhead
    rw [hhead] at h
    simp at h

/-- A path spells one list of keys, the segments that count. -/
theorem spells_iff {path : String} {keys : List String} : Spells path keys ↔ segments path = keys := by
  constructor
  · rintro ⟨hkeys, hpath⟩
    rw [segments_eq, hpath.filter_bare, filter_bare_eq hkeys]
  · rintro rfl
    rw [segments_eq]
    refine ⟨fun key hkey => ?_, dollared_filter_bare _⟩
    obtain ⟨hmem, hne⟩ := List.mem_filter.mp hkey
    obtain ⟨s, hs, rfl⟩ := List.mem_map.mp hmem
    exact isSegment_bare (by simpa using hne) (dot_notMem_of_mem hs)

/-! ## What keys and paths lead to -/

/-- What keys lead to in a value. -/
inductive LeadsTo : Value → List String → Value → Prop
  | here {v : Value} : LeadsTo v [] v
  | under {es : List (String × Value)} {key : String} {v w : Value} {keys : List String} :
      Entries.get? es key = some v → LeadsTo v keys w → LeadsTo (.map es) (key :: keys) w

/-- What a path leads to. -/
inductive Leads (d : Dataset) (path : String) (v : Value) : Prop
  | spelled {keys : List String} : Spells path keys → LeadsTo (.map d.root) keys v → Leads d path v
  /-- The first key names the whole dataset. -/
  | below {first : String} {keys : List String} : Spells path (first :: keys) → first = "data" ∨ first = "root" →
      Entries.get? d.root first = none → LeadsTo (.map d.root) keys v → Leads d path v

/-- The path leads to a list of mappings. -/
def HasTable (d : Dataset) (path : String) : Prop :=
  ∃ items, d.Leads path (.list items) ∧ ∀ v ∈ items, ∃ es, v = .map es

/-- The path leads to no table, and this is why. -/
inductive LacksTable (d : Dataset) (path : String) : NoTable → Prop
  | absent : (∀ v, ¬ d.Leads path v) → LacksTable d path .absent
  | notATable {v : Value} : d.Leads path v → (∀ items, v ≠ .list items) → LacksTable d path .notATable
  | notRows {items : List Value} {v : Value} : d.Leads path (.list items) → v ∈ items → (∀ es, v ≠ .map es) →
      LacksTable d path .notRows

theorem descend_of_not_map {v : Value} (hv : ∀ es, v ≠ .map es) {w : Value} {segments : List String} :
    descend v segments = some w ↔ segments = [] ∧ v = w := by
  cases segments with
  | nil => simp [descend]
  | cons s rest =>
    cases v with
    | map es => exact absurd rfl (hv es)
    | _ => simp [descend]

theorem descend_map_cons {es : List (String × Value)} {s : String} {rest : List String} {w : Value} :
    descend (.map es) (s :: rest) = some w ↔ ∃ v, Entries.get? es s = some v ∧ descend v rest = some w := by
  rw [descend, Option.bind_eq_some_iff]

theorem leadsTo_iff {v w : Value} {keys : List String} : LeadsTo v keys w ↔ descend v keys = some w := by
  constructor
  · intro h
    induction h with
    | here => rfl
    | under hget _ ih => exact descend_map_cons.mpr ⟨_, hget, ih⟩
  · intro h
    induction keys generalizing v with
    | nil =>
      cases h
      exact .here
    | cons key keys ih =>
      cases v with
      | map es =>
        obtain ⟨u, hget, hrest⟩ := descend_map_cons.mp h
        exact .under hget (ih hrest)
      | _ => cases h

/-- What a path leads to is what is found along its route. -/
theorem leads_iff {d : Dataset} {path : String} {v : Value} :
    d.Leads path v ↔ descend (.map d.root) (d.route path) = some v := by
  rw [← leadsTo_iff]
  constructor
  · intro h
    cases h with
    | @spelled keys hkeys hv =>
      rw [route, spells_iff.mp hkeys]
      cases keys with
      | nil => exact hv
      | cons first keys =>
        -- the first key leads on, so it is not passed over
        have hfirst : ∃ u, Entries.get? d.root first = some u := by
          cases hv with
          | under hget _ => exact ⟨_, hget⟩
        obtain ⟨u, hget⟩ := hfirst
        simpa [hget] using hv
    | below hkeys hfirst hnone hv =>
      rw [route, spells_iff.mp hkeys]
      simpa [hfirst, hnone] using hv
  · intro h
    rw [route] at h
    split at h
    · rename_i first rest hsegments
      split at h
      · rename_i hskip
        simp only [Bool.and_eq_true, Bool.or_eq_true, beq_iff_eq, Option.isNone_iff_eq_none] at hskip
        exact .below (spells_iff.mpr hsegments) hskip.1 hskip.2 h
      · exact .spelled (spells_iff.mpr hsegments) h
    · rename_i hsegments
      exact .spelled (spells_iff.mpr hsegments) h

/-! ## Lists of mappings -/

theorem rowsOf?_eq_some_iff {items : List Value} {rows : List Row} :
    rowsOf? items = some rows ↔ List.Forall₂ (fun v r => ∃ es, v = .map es ∧ r = Row.ofList es) items rows := by
  induction items generalizing rows with
  | nil =>
    rw [List.forall₂_nil_left_iff]
    exact ⟨fun h => (Option.some.inj h).symm, fun h => h ▸ rfl⟩
  | cons v items ih =>
    constructor
    · intro h
      rw [rowsOf?, List.mapM_cons] at h
      obtain ⟨r, hr, h⟩ := Option.bind_eq_some_iff.mp h
      obtain ⟨rest, hrest, h⟩ := Option.bind_eq_some_iff.mp h
      cases h
      refine .cons ?_ (ih.mp hrest)
      cases v <;> cases hr
      exact ⟨_, rfl, rfl⟩
    · intro h
      obtain ⟨r, rest, ⟨es, rfl, rfl⟩, hrest, rfl⟩ := List.forall₂_cons_left_iff.mp h
      have hrest := ih.mpr hrest
      rw [rowsOf?] at hrest ⊢
      rw [List.mapM_cons, hrest]
      rfl

theorem length_of_rowsOf? {items : List Value} {rows : List Row} (h : rowsOf? items = some rows) :
    rows.length = items.length :=
  (rowsOf?_eq_some_iff.mp h).length_eq.symm

theorem isSome_rowsOf? {items : List Value} : (rowsOf? items).isSome = true ↔ ∀ v ∈ items, ∃ es, v = .map es := by
  rw [Option.isSome_iff_exists]
  simp only [rowsOf?_eq_some_iff]
  constructor
  · rintro ⟨rows, h⟩ v hv
    induction h with
    | nil => cases hv
    | cons hrow _ ih =>
      rcases List.mem_cons.mp hv with rfl | hv
      · obtain ⟨es, hes, -⟩ := hrow
        exact ⟨es, hes⟩
      · exact ih hv
  · intro h
    induction items with
    | nil => exact ⟨[], .nil⟩
    | cons v items ih =>
      obtain ⟨⟨es, hes⟩, hitems⟩ := List.forall_mem_cons.mp h
      obtain ⟨rows, hrows⟩ := ih hitems
      exact ⟨Row.ofList es :: rows, .cons ⟨es, hes, rfl⟩ hrows⟩

/-! ## Tables at paths -/

/-- A path leads to a table where its keys lead to a list of mappings. -/
theorem table_eq_ok_iff {d : Dataset} {path : String} {rows : List Row} :
    d.table path = .ok rows ↔
      ∃ items, descend (.map d.root) (d.route path) = some (.list items) ∧ rowsOf? items = some rows := by
  unfold table
  constructor
  · intro h
    split at h
    · cases h
    · rename_i items hfound
      split at h
      · rename_i hrows
        cases h
        exact ⟨items, hfound, hrows⟩
      · cases h
    · cases h
  · rintro ⟨items, hfound, hrows⟩
    rw [hfound]
    simp only [hrows]

theorem hasTable_iff {d : Dataset} {path : String} : d.HasTable path ↔ ∃ rows, d.table path = .ok rows := by
  simp only [table_eq_ok_iff]
  constructor
  · rintro ⟨items, hleads, hitems⟩
    obtain ⟨rows, hrows⟩ := Option.isSome_iff_exists.mp (isSome_rowsOf?.mpr hitems)
    exact ⟨rows, items, leads_iff.mp hleads, hrows⟩
  · rintro ⟨rows, items, hfound, hrows⟩
    exact ⟨items, leads_iff.mpr hfound, isSome_rowsOf?.mp (Option.isSome_iff_exists.mpr ⟨rows, hrows⟩)⟩

/-- A path that leads to no table is refused for what stands where it leads. -/
theorem table_eq_error_iff {d : Dataset} {path : String} {e : QueryError} :
    d.table path = .error e ↔ ∃ cause, d.LacksTable path cause ∧ e = .unknownTable path cause := by
  have hrows {items : List Value} : rowsOf? items = none ↔ ∃ v ∈ items, ∀ es, v ≠ .map es := by
    rw [← Option.not_isSome_iff_eq_none, isSome_rowsOf?]
    push Not
    rfl
  unfold table
  constructor
  · intro h
    split at h
    · rename_i hfound
      cases h
      refine ⟨.absent, .absent fun v hv => ?_, rfl⟩
      rw [leads_iff, hfound] at hv
      cases hv
    · rename_i items hfound
      split at h
      · cases h
      · rename_i hnone
        obtain ⟨v, hv, hmap⟩ := hrows.mp hnone
        cases h
        exact ⟨.notRows, .notRows (leads_iff.mpr hfound) hv hmap, rfl⟩
    · rename_i v hlist hfound
      cases h
      exact ⟨.notATable, .notATable (leads_iff.mpr hfound) hlist, rfl⟩
  · rintro ⟨cause, hcause, rfl⟩
    cases hcause with
    | absent hnone =>
      have hfound : descend (.map d.root) (d.route path) = none :=
        Option.eq_none_iff_forall_ne_some.mpr fun v hv => hnone v (leads_iff.mpr hv)
      rw [hfound]
    | @notATable v hleads hlist =>
      rw [leads_iff.mp hleads]
      cases v with
      | list items => exact absurd rfl (hlist items)
      | _ => rfl
    | notRows hleads hv hmap =>
      rw [leads_iff.mp hleads]
      simp only [hrows.mpr ⟨_, hv, hmap⟩]

/-- A path of the same route lacks a table for the same cause. -/
theorem LacksTable.of_route {d : Dataset} {path path' : String} {cause : NoTable} (h : d.LacksTable path cause)
    (hroute : d.route path' = d.route path) : d.LacksTable path' cause := by
  have hleads {v : Value} : d.Leads path' v ↔ d.Leads path v := by rw [leads_iff, leads_iff, hroute]
  cases h with
  | absent hnone => exact .absent fun v hv => hnone v (hleads.mp hv)
  | notATable hv hlist => exact .notATable (hleads.mpr hv) hlist
  | notRows hv hmem hmap => exact .notRows (hleads.mpr hv) hmem hmap

theorem hasTable_iff_not_lacksTable {d : Dataset} {path : String} :
    d.HasTable path ↔ ∀ cause, ¬ d.LacksTable path cause := by
  rw [hasTable_iff]
  constructor
  · rintro ⟨rows, hrows⟩ cause hlacks
    rw [table_eq_error_iff.mpr ⟨cause, hlacks, rfl⟩] at hrows
    cases hrows
  · intro h
    cases hpath : d.table path with
    | ok rows => exact ⟨rows, rfl⟩
    | error e =>
      obtain ⟨cause, hlacks, -⟩ := table_eq_error_iff.mp hpath
      exact absurd hlacks (h cause)

end JsonTables.Dataset
