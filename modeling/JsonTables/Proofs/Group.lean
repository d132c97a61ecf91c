/-
  JsonTables.Proofs.Group — what the row of a group holds.

  The rows of a bucket give every aggregate call its value, and a call is looked up by its text. So what
  the row shows for a call is the value of the first call of that text.

  Proved:
  - `groupRows_outcome`: one row for every bucket, its first row overlaid with the value of every call
    under the text of the call.
  - `groupedRow_own_values`: a call finds its own value there exactly where all calls of its text have
    one value. `` count(`*`) `` and `count(*)` are two calls of one text (`column_takes_place_of_star`).
  - `groupRows_partitions`: all of this together, with the buckets of the rows.
-/

import JsonTables.Function.Builtin
import JsonTables.Proofs.Aggregates
import JsonTables.Proofs.Buckets
import JsonTables.Proofs.Evaluation
import Mathlib.Algebra.GroupWithZero.Nat
import Mathlib.Data.List.Forall2

namespace JsonTables

/-! ## The row of a group -/

/-- What an argument contributes on a row. A column that stands for nothing there is null. -/
def argumentOn (scope : Scope) (row : Row) : Expr → Except Fault Value
  | .column name => .ok ((scope.resolve? row name).getD .null)
  | e => e.valueOn scope row

/-- The function of an aggregate call on what a bucket contributes: the star, a one for every row. -/
def aggregateOver (scope : Scope) (bucket : List Row) : Expr → Except Fault Value
  | .callStar name => match scope.registry.lookup? name with
    | some f => f.run (List.replicate bucket.length (Value.ofInt 1))
    | none => .ok .null
  | .call name (argument :: _) => match scope.registry.lookup? name with
    | some f => do f.run (← bucket.mapM fun r => argumentOn scope r argument)
    | none => .ok .null
  | _ => .ok .null

/-- The first row of a bucket, overlaid with the values of the calls under their texts. -/
def groupedRow (scope : Scope) (calls : List Expr) (bucket : List Row) : Except Fault Row := do
  let values ← (distinctCalls calls).mapM fun c => do return (c.key, ← aggregateOver scope bucket c)
  return (bucket.head?.getD Row.empty).setAll values

/-- The keys of a row under some expressions. -/
def keysOn (scope : Scope) (exprs : List Expr) (row : Row) : Except Fault (List Key) :=
  exprs.mapM fun e => do return (← e.valueOn scope row).key

/-! ## Outcomes -/

open Evaluation

theorem steady_argumentValue (scope : Scope) (row : Row) (e : Expr) : Steady (argumentValue scope row e) := by
  cases e with
  | column name => exact steady_pure _
  | _ => exact Expr.steady_eval scope row _

theorem outcome_argumentValue (scope : Scope) (row : Row) (e : Expr) :
    (argumentValue scope row e).outcome = argumentOn scope row e := by
  cases e <;> rfl

theorem steady_aggregateValue (scope : Scope) (bucket : List Row) (c : Expr) :
    Steady (aggregateValue scope bucket c) := by
  unfold aggregateValue
  split
  · split
    · exact steady_lift _
    · exact steady_pure _
  · split
    · exact (steady_mapM (fun r => steady_argumentValue scope r _) bucket).bind fun _ => steady_lift _
    · exact steady_pure _
  · exact steady_pure _

theorem outcome_aggregateValue (scope : Scope) (bucket : List Row) (c : Expr) :
    (aggregateValue scope bucket c).outcome = aggregateOver scope bucket c := by
  cases c with
  | callStar name =>
    cases hf : scope.registry.lookup? name with
    | none => simp [aggregateValue, aggregateOver, hf]
    | some f => simp [aggregateValue, aggregateOver, hf]
  | call name args =>
    rcases args with _ | ⟨argument, rest⟩
    · rfl
    · cases hf : scope.registry.lookup? name with
      | none => simp [aggregateValue, aggregateOver, hf]
      | some f =>
        have hargs := steady_mapM (fun r => steady_argumentValue scope r argument) bucket
        simp only [aggregateValue, aggregateOver, hf]
        rw [outcome_bind hargs fun _ => steady_lift _, outcome_mapM fun r => steady_argumentValue scope r argument]
        simp only [outcome_argumentValue, outcome_lift]
  | _ => rfl

theorem steady_rowKeys (scope : Scope) (exprs : List Expr) (row : Row) : Steady (rowKeys scope exprs row) :=
  steady_mapM (fun e => (Expr.steady_eval scope row e).bind fun _ => steady_pure _) exprs

theorem outcome_rowKeys (scope : Scope) (exprs : List Expr) (row : Row) :
    (rowKeys scope exprs row).outcome = keysOn scope exprs row := by
  unfold rowKeys keysOn
  rw [outcome_mapM fun e => (Expr.steady_eval scope row e).bind fun _ => steady_pure _]
  congr 1
  funext e
  rw [outcome_bind (Expr.steady_eval scope row e) fun _ => steady_pure _]
  rfl

/-- Columns set one after another are columns set all at once. -/
theorem foldlM_insert {γ : Type} (value : γ → Except Fault Value) (name : γ → String) (row : Row) (cs : List γ) :
    (cs.foldlM (fun row c => do let v ← value c; return row.insert (name c) v) row) =
      (cs.mapM fun c => do return (name c, ← value c)) >>= fun vs => .ok (row.setAll vs) := by
  induction cs generalizing row with
  | nil => rfl
  | cons c cs ih =>
    simp only [List.foldlM_cons, List.mapM_cons, bind_assoc, pure_bind]
    congr 1
    funext v
    rw [ih]
    rfl

/-- One column of the row of a group. -/
def setAggregate (scope : Scope) (bucket : List Row) (row : Row) (e : String × Expr) : Evaluation Row := do
  let v ← aggregateValue scope bucket e.2
  return row.insert e.1 v

theorem steady_setAggregate (scope : Scope) (bucket : List Row) (row : Row) (e : String × Expr) :
    Steady (setAggregate scope bucket row e) :=
  (steady_aggregateValue scope bucket e.2).bind fun _ => steady_pure _

theorem outcome_setAggregate (scope : Scope) (bucket : List Row) (row : Row) (e : String × Expr) :
    (setAggregate scope bucket row e).outcome =
      aggregateOver scope bucket e.2 >>= fun v => .ok (row.insert e.1 v) := by
  unfold setAggregate
  rw [outcome_bind (steady_aggregateValue scope bucket e.2) fun _ => steady_pure _, outcome_aggregateValue]
  rfl

theorem steady_groupRow (scope : Scope) (calls : Entries Expr) (bucket : List Row) :
    Steady (groupRow scope calls bucket) :=
  steady_foldlM (steady_setAggregate scope bucket) _ _

theorem outcome_groupRow (scope : Scope) (calls : List Expr) (bucket : List Row) :
    (groupRow scope ((distinctCalls calls).map keyed) bucket).outcome = groupedRow scope calls bucket := by
  show (List.foldlM (setAggregate scope bucket) _ _).outcome = _
  rw [outcome_foldlM (steady_setAggregate scope bucket)]
  simp only [outcome_setAggregate, List.foldlM_map, keyed]
  exact foldlM_insert (aggregateOver scope bucket) Expr.key _ _

/-- The groups of some rows, by the places of equal keys. -/
def groupsOn (scope : Scope) (groupBy : List Expr) (rows : List Row) : Except Fault (List (List Row)) :=
  if groupBy = [] then .ok [rows]
  else do
    let keys ← rows.mapM (keysOn scope groupBy)
    return (bucketPlaces keys).map (membersAt rows)

theorem outcome_groupsOf (scope : Scope) (groupBy : List Expr) (rows : List Row) :
    (groupsOf scope groupBy rows).outcome = groupsOn scope groupBy rows := by
  unfold groupsOf groupsOn
  by_cases hg : groupBy = []
  · simp [hg]
  · have hempty : groupBy.isEmpty = false := by simpa using hg
    have hkeyed := steady_mapM_zipWith (steady_rowKeys scope groupBy) Prod.mk rows
    rw [if_neg hg]
    simp only [hempty, Bool.false_eq_true, if_false]
    refine (outcome_bind hkeyed fun _ => steady_pure _).trans ?_
    rw [outcome_mapM_zipWith (steady_rowKeys scope groupBy)]
    simp only [outcome_rowKeys]
    cases hkeys : rows.mapM (keysOn scope groupBy) with
    | error fault => rfl
    | ok keys =>
      have hlen : keys.length = rows.length := (forall₂_of_mapM hkeys).length_eq.symm
      show Except.ok (bucketsBy (keys.zip rows)) = Except.ok ((bucketPlaces keys).map (membersAt rows))
      rw [bucketsBy_eq, List.map_fst_zip (Nat.le_of_eq hlen), List.map_snd_zip (Nat.le_of_eq hlen.symm)]

theorem steady_groupsOf (scope : Scope) (groupBy : List Expr) (rows : List Row) :
    Steady (groupsOf scope groupBy rows) := by
  unfold groupsOf
  split
  · exact steady_pure _
  · exact (steady_mapM (fun r => (steady_rowKeys scope groupBy r).bind fun _ => steady_pure _) rows).bind
      fun _ => steady_pure _

/-- Grouping is one row for every group, or the first fault of arithmetic on the way. -/
theorem groupRows_outcome (scope : Scope) (groupBy : List Expr) (select : List SelectItem)
    (having : Option Predicate) (orderBy : List OrderItem) (rows : List Row) (journal : Journal) :
    ((groupRows scope groupBy select having orderBy rows).start journal).1 =
      groupsOn scope groupBy rows >>= fun groups =>
        groups.mapM (groupedRow scope (outermostCalls scope.registry select having orderBy)) := by
  have hrows := steady_groupRow scope (collectAggregates scope.registry select having orderBy)
  have hnote : ∀ result : List Row,
      Steady (note (.grouped rows.length result.length) >>= fun _ => (pure result : Evaluation _)) :=
    fun result => (steady_note _).bind fun _ => steady_pure _
  unfold groupRows
  rw [start_bind_fst (steady_groupsOf scope groupBy rows) fun groups => (steady_mapM hrows groups).bind hnote,
    outcome_groupsOf]
  congr 1
  funext groups
  rw [outcome_bind (steady_mapM hrows groups) hnote, outcome_mapM hrows, collectAggregates_eq]
  simp only [outcome_groupRow]
  cases groups.mapM (groupedRow scope (outermostCalls scope.registry select having orderBy)) with
  | error fault => rfl
  | ok result => rfl

/-- A result of grouping has a row for every group. -/
theorem exists_groups {scope : Scope} {groupBy calls : List Expr} {rows shown : List Row}
    (h : (groupsOn scope groupBy rows >>= fun groups => groups.mapM (groupedRow scope calls)) = .ok shown) :
    ∃ groups, groupsOn scope groupBy rows = .ok groups ∧
      List.Forall₂ (fun bucket row => groupedRow scope calls bucket = .ok row) groups shown := by
  cases hgroups : groupsOn scope groupBy rows with
  | error fault => rw [hgroups] at h; cases h
  | ok groups =>
    rw [hgroups] at h
    exact ⟨groups, rfl, forall₂_of_mapM h⟩

/-! ## What a call finds in the row of its group -/

theorem get?_of_forall₂ {value : Expr → Except Fault Value} {calls : List Expr} {values : Entries Value}
    (h : List.Forall₂ (fun c e => (do return (c.key, ← value c)) = Except.ok e) calls values) :
    Entries.keys values = calls.map Expr.key ∧
      ((calls.map Expr.key).Nodup → ∀ c ∈ calls, ∃ v, value c = .ok v ∧ Entries.get? values c.key = some v) := by
  induction h with
  | nil => exact ⟨rfl, fun _ c hc => by simp at hc⟩
  | @cons c e calls values hce _ ih =>
    obtain ⟨v, hv, rfl⟩ : ∃ v, value c = .ok v ∧ e = (c.key, v) := by
      cases hv : value c with
      | error fault => rw [hv] at hce; cases hce
      | ok v => rw [hv] at hce; cases hce; exact ⟨v, rfl, rfl⟩
    refine ⟨by simpa [Entries.keys] using ih.1, ?_⟩
    intro hn d hd
    rw [List.map_cons, List.nodup_cons] at hn
    rcases List.mem_cons.mp hd with rfl | hd
    · exact ⟨v, hv, by simp [Entries.get?_cons]⟩
    · obtain ⟨w, hw, hget⟩ := ih.2 hn.2 d hd
      have hne : c.key ≠ d.key := fun he => hn.1 (he ▸ List.mem_map_of_mem hd)
      exact ⟨w, hw, by rw [Entries.get?_cons, if_neg hne, hget]⟩

/-- The first call of each text finds its own value. -/
theorem groupedRow_get? {scope : Scope} {calls : List Expr} {bucket : List Row} {row : Row}
    (h : groupedRow scope calls bucket = .ok row) :
    ∀ c ∈ distinctCalls calls, ∃ v, aggregateOver scope bucket c = .ok v ∧ row.get? c.key = some v := by
  unfold groupedRow at h
  cases hvalues : (distinctCalls calls).mapM fun c => do return (c.key, ← aggregateOver scope bucket c) with
  | error fault => rw [hvalues] at h; cases h
  | ok values =>
    rw [hvalues] at h
    cases h
    obtain ⟨hkeys, hget⟩ := get?_of_forall₂ (forall₂_of_mapM hvalues)
    intro c hc
    obtain ⟨v, hv, hlook⟩ := hget (nodup_distinctCalls calls) c hc
    refine ⟨v, hv, ?_⟩
    have hnodup : (Entries.keys values).Nodup := hkeys ▸ nodup_distinctCalls calls
    show Entries.get? (Entries.overlay _ values) c.key = some v
    rw [Entries.get?_overlay _ hnodup, hlook]
    rfl

/-- Every call finds its own value in the row of a bucket. -/
def FindOwnValues (scope : Scope) (calls : List Expr) (bucket : List Row) (row : Row) : Prop :=
  ∀ c ∈ calls, ∃ v, aggregateOver scope bucket c = .ok v ∧ row.get? c.key = some v

/-- Calls of one text come to one value over a bucket. -/
def TextsAgree (scope : Scope) (calls : List Expr) (bucket : List Row) : Prop :=
  ∀ c ∈ calls, ∀ d ∈ calls, c.key = d.key → aggregateOver scope bucket c = aggregateOver scope bucket d

theorem groupedRow_own_values {scope : Scope} {calls : List Expr} {bucket : List Row} {row : Row}
    (h : groupedRow scope calls bucket = .ok row) :
    FindOwnValues scope calls bucket row ↔ TextsAgree scope calls bucket := by
  constructor
  · intro hown c hc d hd hkey
    obtain ⟨v, hv, hgetv⟩ := hown c hc
    obtain ⟨w, hw, hgetw⟩ := hown d hd
    rw [hkey, hgetw] at hgetv
    rw [hv, hw, Option.some.inj hgetv]
  · intro hagree c hc
    obtain ⟨d, hd, hkey⟩ := exists_distinctCall hc
    obtain ⟨v, hv, hget⟩ := groupedRow_get? h d hd
    exact ⟨v, (hagree c hc d (mem_of_mem_distinctCalls hd) hkey.symm).trans hv, hkey ▸ hget⟩

/-! ## Counting the rows -/

theorem count_replicate (n : Nat) : Function.count (List.replicate n (Value.ofInt 1)) = .ok (Value.ofInt n) := by
  have hall : Function.present (List.replicate n (Value.ofInt 1)) = List.replicate n (Value.ofInt 1) :=
    List.filter_eq_self.mpr fun v hv => by rw [List.eq_of_mem_replicate hv]; rfl
  simp [Function.count, hall]

theorem aggregateOver_count_star {scope : Scope} {f : Function} {name : String}
    (hf : scope.registry.lookup? "count" = some f) (hrun : f.run = Function.count)
    (hkey : (Expr.callStar name).key = "count(*)") (bucket : List Row) :
    aggregateOver scope bucket (.callStar name) = .ok (Value.ofInt bucket.length) := by
  have hname : Text.lower name = "count" := by
    have htext : Text.lower name ++ "(*)" = "count" ++ "(*)" := hkey
    exact (String.append_left_inj "(*)").mp htext
  have hlookup : scope.registry.lookup? name = some f := by
    rw [← hf]
    unfold Registry.lookup?
    rw [hname]
    rfl
  simp [aggregateOver, hlookup, hrun, count_replicate]

/-- Every row lies in one group. -/
theorem perm_groupsOn {scope : Scope} {groupBy : List Expr} {rows : List Row} {groups : List (List Row)}
    (h : groupsOn scope groupBy rows = .ok groups) : groups.flatten.Perm rows := by
  unfold groupsOn at h
  split at h
  · cases h
    simp
  · cases hkeys : rows.mapM (keysOn scope groupBy) with
    | error fault => rw [hkeys] at h; cases h
    | ok keys =>
      rw [hkeys] at h
      cases h
      have hlen : keys.length = rows.length := (forall₂_of_mapM hkeys).length_eq.symm
      have hflat : ((bucketPlaces keys).map (membersAt rows)).flatten = membersAt rows (bucketPlaces keys).flatten := by
        rw [membersAt, List.filterMap_flatten]
        rfl
      have hperm : (membersAt rows (bucketPlaces keys).flatten).Perm (membersAt rows (List.range keys.length)) :=
        (isBuckets_bucketPlaces keys).each.filterMap _
      rw [hflat]
      rwa [hlen, membersAt_range] at hperm

theorem sum_length_groupsOn {scope : Scope} {groupBy : List Expr} {rows : List Row} {groups : List (List Row)}
    (h : groupsOn scope groupBy rows = .ok groups) : (groups.map List.length).sum = rows.length := by
  rw [← List.length_flatten, (perm_groupsOn h).length_eq]

/-- What a call shows in all rows of groups is what it comes to over the groups. -/
theorem shown_of_groups {scope : Scope} {calls : List Expr} {c : Expr} (hc : c ∈ distinctCalls calls)
    {groups : List (List Row)} {shown : List Row}
    (h : List.Forall₂ (fun bucket row => groupedRow scope calls bucket = .ok row) groups shown) :
    ∃ parts, List.Forall₂ (fun bucket part => aggregateOver scope bucket c = .ok part) groups parts ∧
      shown.map (·.get? c.key) = parts.map some := by
  induction h with
  | nil => exact ⟨[], .nil, rfl⟩
  | @cons bucket row groups shown hrow _ ih =>
    obtain ⟨parts, hparts, hshown⟩ := ih
    obtain ⟨part, hpart, hget⟩ := groupedRow_get? hrow c hc
    exact ⟨part :: parts, .cons hpart hparts, by rw [List.map_cons, hget, hshown, List.map_cons]⟩

/-- Where `count(*)` is the first call of its text, what it shows in all groups adds up to all rows. -/
theorem counts_add_up {scope : Scope} {groupBy : List Expr} {calls : List Expr} {rows : List Row} {f : Function}
    {name : String} (hf : scope.registry.lookup? "count" = some f) (hrun : f.run = Function.count)
    (hfirst : calls.find? (·.key == "count(*)") = some (.callStar name)) {shown : List Row}
    (h : (groupsOn scope groupBy rows >>= fun groups => groups.mapM (groupedRow scope calls)) = .ok shown) :
    ∃ counts : List Nat, shown.map (·.get? "count(*)") = counts.map (fun n : Nat => some (Value.ofInt n)) ∧
      counts.sum = rows.length := by
  obtain ⟨groups, hgroups, hrows⟩ := exists_groups h
  have hkey : (Expr.callStar name).key = "count(*)" := by simpa using List.find?_some hfirst
  have hmem : Expr.callStar name ∈ distinctCalls calls := by
    rw [← find?_distinctCalls] at hfirst
    exact List.mem_of_find?_eq_some hfirst
  obtain ⟨parts, hparts, hshown⟩ := shown_of_groups hmem hrows
  have hcounts := eq_map_of_forall₂ hparts fun bucket _ => aggregateOver_count_star hf hrun hkey bucket
  refine ⟨groups.map List.length, ?_, sum_length_groupsOn hgroups⟩
  rw [← hkey, hshown, hcounts, List.map_map, List.map_map]
  rfl

/-! ## Grouping -/

/-- Without `GROUP BY` there is one row for all rows. With it the rows fall into buckets of equal keys and
there is one row for every bucket; grouping fails only where a key or a call fails. A call finds its own
value exactly where the calls of its text agree, and then `count(*)` counts every row once. -/
theorem groupRows_partitions (scope : Scope) (groupBy : List Expr) (select : List SelectItem)
    (having : Option Predicate) (orderBy : List OrderItem) (rows : List Row) (journal : Journal) :
    let calls := outermostCalls scope.registry select having orderBy
    let result := ((groupRows scope groupBy select having orderBy rows).start journal).1
    (groupBy = [] → result = (groupedRow scope calls rows).map ([·])) ∧
    (groupBy ≠ [] → ∀ fault, rows.mapM (keysOn scope groupBy) = .error fault → result = .error fault) ∧
    (groupBy ≠ [] → ∀ keys, rows.mapM (keysOn scope groupBy) = .ok keys → keys.length = rows.length ∧
      ∃ buckets, IsBuckets keys buckets ∧
        result = buckets.mapM fun b => groupedRow scope calls (membersAt rows b)) ∧
    (∀ bucket row, groupedRow scope calls bucket = .ok row →
      (FindOwnValues scope calls bucket row ↔ TextsAgree scope calls bucket)) ∧
    (∀ f name shown, scope.registry.lookup? "count" = some f → f.run = Function.count →
      calls.find? (·.key == "count(*)") = some (.callStar name) → result = .ok shown →
      ∃ counts : List Nat, shown.map (·.get? "count(*)") = counts.map (fun n : Nat => some (Value.ofInt n)) ∧
        counts.sum = rows.length) := by
  intro calls result
  have hresult : result = groupsOn scope groupBy rows >>= fun groups => groups.mapM (groupedRow scope calls) :=
    groupRows_outcome scope groupBy select having orderBy rows journal
  refine ⟨?_, ?_, ?_, fun bucket row => groupedRow_own_values, ?_⟩
  · intro hg
    rw [hresult, groupsOn, if_pos hg]
    show [rows].mapM (groupedRow scope calls) = _
    rw [List.mapM_cons]
    cases groupedRow scope calls rows <;> rfl
  · intro hg fault hkeys
    rw [hresult, groupsOn, if_neg hg, hkeys]
    rfl
  · intro hg keys hkeys
    refine ⟨(forall₂_of_mapM hkeys).length_eq.symm, bucketPlaces keys, isBuckets_bucketPlaces keys, ?_⟩
    rw [hresult, groupsOn, if_neg hg, hkeys]
    exact List.mapM_map
  · intro f name shown hf hrun hfirst hshown
    exact counts_add_up hf hrun hfirst (hresult ▸ hshown)

/-- Two rows of one city and one of another: two buckets, and the counts add up to three. -/
theorem groupRows_partitions_cities :
    let scope : Scope := ⟨Registry.builtin, []⟩
    let row (city : String) := Row.ofList [("city", .text city)]
    let rows := [row "Oslo", row "Rome", row "Oslo"]
    let select : List SelectItem := [⟨.expr (.callStar "count"), none⟩]
    ∃ buckets shown, IsBuckets [[Key.text "Oslo"], [Key.text "Rome"], [Key.text "Oslo"]] buckets ∧
      ((groupRows scope [.column "city"] select none [] rows).start []).1 = .ok shown ∧
      shown.length = 2 ∧
      (buckets.mapM fun b => groupedRow scope [.callStar "count"] (membersAt rows b)) = .ok shown ∧
      ∃ counts : List Nat, shown.map (·.get? "count(*)") = counts.map (fun n : Nat => some (Value.ofInt n)) ∧
        counts.sum = 3 := by
  intro scope row rows select
  obtain ⟨_, _, hgrouped, _, hcounts⟩ :=
    groupRows_partitions scope [.column "city"] select none [] rows []
  obtain ⟨_, buckets, hbuckets, hresult⟩ := hgrouped (by simp) _ rfl
  obtain ⟨shown, hshown, hlen⟩ : ∃ shown,
      ((groupRows scope [.column "city"] select none [] rows).start []).1 = .ok shown ∧ shown.length = 2 :=
    ⟨_, rfl, rfl⟩
  exact ⟨buckets, shown, hbuckets, hshown, hlen, hresult ▸ hshown, hcounts _ "count" shown rfl rfl rfl hshown⟩

/-- ``SELECT count(`*`), count(*)`` on one row shows no row: both calls read `count(*)`, and the first
one counts the values of a column of the name `*`. -/
theorem column_takes_place_of_star :
    let scope : Scope := ⟨Registry.builtin, []⟩
    let select : List SelectItem := [⟨.expr (.call "count" [.column "*"]), none⟩, ⟨.expr (.callStar "count"), none⟩]
    let rows := [Row.ofList [("a", Value.ofInt 1)]]
    ∃ shown, ((groupRows scope [] select none [] rows).start []).1 = .ok shown ∧
      shown.map (·.get? "count(*)") = [some (Value.ofInt 0)] ∧
      aggregateOver scope rows (.callStar "count") = .ok (Value.ofInt 1) := by
  exact ⟨_, rfl, rfl, rfl⟩

end JsonTables
