/-
  JsonTables.Proofs.Function.Extremes — which value `min` and `max` show.

  Comparing one value after another looks at each pair of neighbours only, and the comparison is no order among
  values of both kinds. Among values of one kind it is, so what is left in the end beats all that stands in front
  of it and is beaten by nothing. Of numbers only the normal form is shown, and numbers that tie have one.

  Proved:
  - `exists_before_bestOf`: what comparing leaves beats every value in front of it.
  - `extreme_congr`, `extreme_perm`: missing values do not count, and of numbers neither does the order.
  - `extreme_shows_first`: `min` and `max` show the first of the values that nothing beats.
-/

import JsonTables.Function.Builtin
import JsonTables.Proofs.Function.OfGroup
import JsonTables.Proofs.Value.Key

namespace JsonTables.Function

/-- The value is there, nothing there beats it, and it beats all that is there in front of it. -/
structure IsFirstOf (side : Ordering) (before : List Value) (m : Value) (after : List Value) : Prop where
  there : m.isMissing = false
  leads : ∀ v ∈ before ++ m :: after, v.isMissing = false → m.sortCompare v = side ∨ m.sortCompare v = .eq
  first : ∀ v ∈ before, v.isMissing = false → m.sortCompare v = side

/-- A number in its normal form, and any other value as it is. -/
def shownExtreme (v : Value) : Value :=
  match v.number? with
  | some n => normal n
  | none => v

/-! ## The value that comparing leaves -/

section

variable {side : Ordering} {numeric : Bool} {values : List Value}

theorem extreme_eq {first : Value} {rest : List Value} (h : present values = first :: rest) :
    extreme side values = .ok (shownExtreme (bestOf side first rest)) := by
  rw [extreme, h]
  rfl

/-- What does not beat a value wins or ties when it is compared with it. -/
theorem leads_of_unbeaten (hside : side ≠ .eq) {v w : Value} (h : w.sortCompare v ≠ side) :
    v.sortCompare w = side ∨ v.sortCompare w = .eq := by
  rw [Value.sortCompare_swap] at h
  cases hvw : v.sortCompare w <;> cases side <;> simp_all

theorem exists_before_bestOf (hside : side ≠ .eq) (first : Value) (hfirst : first.number?.isSome = numeric)
    (hvalues : ∀ v ∈ values, v.number?.isSome = numeric) : ∃ before after,
      first :: values = before ++ bestOf side first values :: after ∧
        ∀ v ∈ before, (bestOf side first values).sortCompare v = side := by
  induction values generalizing first with
  | nil => exact ⟨[], [], rfl, List.forall_mem_nil _⟩
  | cons w values ih =>
    obtain ⟨hw, hrest⟩ := List.forall_mem_cons.mp hvalues
    by_cases hbeats : w.sortCompare first = side
    · -- The new value takes over: what it beats is beaten by all that it does not beat.
      obtain ⟨before, after, hsplit, hbefore⟩ := ih w hw hrest
      obtain ⟨hmem, hunbeaten⟩ := bestOf_leads hside w hw hrest
      have hkind : (bestOf side w values).number?.isSome = numeric := hvalues _ hmem
      have hfirstBeaten : (bestOf side w values).sortCompare first = side := by
        by_contra hnot
        exact unbeaten_trans hside (hw.trans hkind.symm) (hkind.trans hfirst.symm)
          (hunbeaten w List.mem_cons_self) hnot hbeats
      rw [bestOf_of_beats hbeats, hsplit]
      exact ⟨first :: before, after, rfl, List.forall_mem_cons.mpr ⟨hfirstBeaten, hbefore⟩⟩
    · obtain ⟨before, after, hsplit, hbefore⟩ := ih first hfirst hrest
      rw [bestOf_of_unbeaten hbeats]
      cases before with
      | nil =>
        obtain ⟨hfirstBest, -⟩ := List.cons.inj hsplit
        exact ⟨[], w :: values, by rw [← hfirstBest]; rfl, List.forall_mem_nil _⟩
      | cons v before =>
        obtain ⟨rfl, hvalues'⟩ := List.cons.inj hsplit
        obtain ⟨hfirstBeaten, hbefore⟩ := List.forall_mem_cons.mp hbefore
        have hall : ∀ v ∈ first :: values, v.number?.isSome = numeric := List.forall_mem_cons.mpr ⟨hfirst, hrest⟩
        have hkind := hall _ (bestOf_leads hside first hfirst hrest).1
        have hwBeaten : (bestOf side first values).sortCompare w = side := by
          by_contra hnot
          exact unbeaten_trans hside (hkind.trans hw.symm) (hw.trans hfirst.symm) hnot hbeats hfirstBeaten
        refine ⟨first :: w :: before, after, ?_, ?_⟩
        · exact congrArg (first :: w :: ·) hvalues'
        · exact List.forall_mem_cons.mpr ⟨hfirstBeaten, List.forall_mem_cons.mpr ⟨hwBeaten, hbefore⟩⟩

/-- Among all values, missing ones in between, the value that comparing leaves is the first that nothing beats. -/
theorem exists_isFirstOf (hside : side ≠ .eq) (hkinds : ∀ v ∈ present values, v.number?.isSome = numeric)
    (hthere : present values ≠ []) : ∃ before m after, values = before ++ m :: after ∧
      IsFirstOf side before m after ∧ extreme side values = .ok (shownExtreme m) := by
  obtain ⟨first, rest, hpresent⟩ := List.exists_cons_of_ne_nil hthere
  obtain ⟨hfirst, hrest⟩ := List.forall_mem_cons.mp (hpresent ▸ hkinds)
  obtain ⟨beforeThere, afterThere, hsplit, hbeats⟩ := exists_before_bestOf hside first hfirst hrest
  have hunbeaten := (bestOf_leads hside first hfirst hrest).2
  have hextreme : extreme side values = .ok (shownExtreme (bestOf side first rest)) := extreme_eq hpresent
  generalize bestOf side first rest = m at hsplit hbeats hunbeaten hextreme
  rw [← hpresent] at hsplit hunbeaten
  obtain ⟨front, back, hvalues, hfront, hback⟩ := List.filter_eq_append_iff.mp hsplit
  obtain ⟨gap, after, rfl, hgap, hm, -⟩ := List.filter_eq_cons_iff.mp hback
  have hall : values = front ++ gap ++ m :: after := by rw [hvalues, List.append_assoc]
  refine ⟨front ++ gap, m, after, hall, ⟨by simpa using hm, fun v hv hvThere => ?_, fun v hv hvThere => ?_⟩, hextreme⟩
  · exact leads_of_unbeaten hside (hunbeaten v (mem_present.mpr ⟨hall ▸ hv, hvThere⟩))
  · rcases List.mem_append.mp hv with hv | hv
    · exact hbeats v (hfront ▸ mem_present.mpr ⟨hv, hvThere⟩)
    · exact absurd (by simpa using hvThere) (hgap v hv)

/-! ## Values elsewhere -/

/-- Missing values do not count. -/
theorem extreme_congr {values' : List Value} (h : present values' = present values) :
    extreme side values' = extreme side values := by
  rw [extreme, extreme, h]

/-- Numbers that tie are shown alike. -/
theorem shownExtreme_eq_of_tie {v w : Value} (hv : v.number?.isSome = true) (hw : w.number?.isSome = true)
    (h : v.sortCompare w = .eq) : shownExtreme v = shownExtreme w := by
  obtain ⟨m, hm⟩ := Option.isSome_iff_exists.mp hv
  obtain ⟨n, hn⟩ := Option.isSome_iff_exists.mp hw
  rw [Value.sortCompare_numbers hm hn] at h
  have hnormal := (Number.normalize_eq_iff (Value.number?_ne_nan hm) (Value.number?_ne_nan hn)).mpr h
  simp only [shownExtreme, hm, hn, normal, hnormal]

/-- The order of numbers does not count. -/
theorem extreme_perm (hside : side ≠ .eq) (hkinds : ∀ v ∈ present values, v.number?.isSome = true)
    {values' : List Value} (hperm : values'.Perm values) : extreme side values' = extreme side values := by
  have hpresent : (present values').Perm (present values) := hperm.filter _
  cases hvalues : present values with
  | nil =>
    have hvalues' : present values' = [] := List.Perm.eq_nil (hvalues ▸ hpresent)
    exact extreme_congr (hvalues'.trans hvalues.symm)
  | cons first rest =>
    have hne' : present values' ≠ [] := fun hnil => by simp [hnil, hvalues] at hpresent
    obtain ⟨first', rest', hvalues'⟩ := List.exists_cons_of_ne_nil hne'
    rw [extreme_eq hvalues, extreme_eq hvalues']
    have hkinds' : ∀ v ∈ present values', v.number?.isSome = true := fun v hv => hkinds v (hpresent.mem_iff.mp hv)
    obtain ⟨hfirst, hrest⟩ := List.forall_mem_cons.mp (hvalues ▸ hkinds)
    obtain ⟨hfirst', hrest'⟩ := List.forall_mem_cons.mp (hvalues' ▸ hkinds')
    obtain ⟨hmem, hunbeaten⟩ := bestOf_leads hside first hfirst hrest
    obtain ⟨hmem', hunbeaten'⟩ := bestOf_leads hside first' hfirst' hrest'
    rw [← hvalues] at hmem hunbeaten
    rw [← hvalues'] at hmem' hunbeaten'
    refine congrArg Except.ok (shownExtreme_eq_of_tie (hkinds' _ hmem') (hkinds _ hmem) ?_)
    exact tie_of_unbeaten hside (hunbeaten _ (hpresent.mem_iff.mp hmem')) (hunbeaten' _ (hpresent.mem_iff.mpr hmem))

theorem shownExtreme_ne_marker {v : Value} (h : v.isMissing = false) : shownExtreme v ≠ .text Value.nullMarker := by
  unfold shownExtreme
  cases hv : v.number? with
  | some n => simp [normal]
  | none =>
    rintro rfl
    simp [Value.isMissing] at h

end

/-! ## `min` and `max` -/

/-- The functions that show an extreme, and the side of the order on which they look for it. -/
def extremeSides : List (String × Ordering) := [("min", .lt), ("max", .gt)]

/-- For all values of which those that are there are all numbers or all none: `min` and `max` show the marker for null
exactly where nothing is there, and else the first of the values that nothing beats, a number in its normal form.
Missing values anywhere change nothing, and of numbers neither does the order. -/
theorem extreme_shows_first {name : String} {side : Ordering} (hname : (name, side) ∈ extremeSides) {numeric : Bool}
    {values : List Value} (hkinds : ∀ v ∈ values, v.isMissing = false → v.number?.isSome = numeric) :
    ∃ f result, Registry.builtin.lookup? name = some f ∧ f.run values = .ok result ∧
      (result = .text Value.nullMarker ↔ ∀ v ∈ values, v.isMissing = true) ∧
      ((∃ v ∈ values, v.isMissing = false) → ∃ before m after, values = before ++ m :: after ∧
        IsFirstOf side before m after ∧ result = shownExtreme m) ∧
      (∀ values', present values' = present values → f.run values' = .ok result) ∧
      (numeric = true → ∀ values' : List Value, values'.Perm values → f.run values' = .ok result) := by
  obtain ⟨hside, hlookup⟩ : side ≠ .eq ∧ Registry.builtin.lookup? name = some (grouped 1 (extreme side)) := by
    simp only [extremeSides, List.mem_cons, List.not_mem_nil, or_false, Prod.mk.injEq] at hname
    rcases hname with ⟨rfl, rfl⟩ | ⟨rfl, rfl⟩
    · exact ⟨by decide, rfl⟩
    · exact ⟨by decide, rfl⟩
  have hkinds : ∀ v ∈ present values, v.number?.isSome = numeric := fun v hv =>
    hkinds v (mem_present.mp hv).1 (mem_present.mp hv).2
  have hpresent : present values = [] ↔ ∀ v ∈ values, v.isMissing = true := by simp [present]
  by_cases hthere : present values = []
  · have hresult : extreme side values = .ok (.text Value.nullMarker) := extreme_of_absent hthere
    refine ⟨_, _, hlookup, hresult, ?_, ?_, fun values' h => ?_, fun _ values' h => ?_⟩
    · exact ⟨fun _ => hpresent.mp hthere, fun _ => rfl⟩
    · rintro ⟨v, hv, hvThere⟩
      have hvMissing := hpresent.mp hthere v hv
      rw [hvThere] at hvMissing
      cases hvMissing
    · exact (extreme_congr h).trans hresult
    · exact extreme_of_absent (List.Perm.eq_nil (hthere ▸ h.filter _))
  · obtain ⟨before, m, after, hvalues, hm, hresult⟩ := exists_isFirstOf hside hkinds hthere
    refine ⟨_, _, hlookup, hresult, ?_, fun _ => ⟨before, m, after, hvalues, hm, rfl⟩, fun values' h => ?_, ?_⟩
    · exact ⟨fun h => absurd h (shownExtreme_ne_marker hm.there), fun h => absurd (hpresent.mpr h) hthere⟩
    · exact (extreme_congr h).trans hresult
    · rintro rfl values' h
      exact (extreme_perm hside hkinds h).trans hresult

/-- Numerals and numbers tie, and what is shown of the first of them is the integer. -/
theorem extreme_shows_first_tied :
    let values := [.null, .number (.float (.ofInt 3)), .text "2.0", Value.ofInt 2, .text Value.nullMarker]
    ("min", Ordering.lt) ∈ extremeSides ∧ (∀ v ∈ values, v.isMissing = false → v.number?.isSome = true) ∧
      ∃ f, Registry.builtin.lookup? "min" = some f ∧ f.run values = .ok (Value.ofInt 2) ∧
        f.run values.reverse = .ok (Value.ofInt 2) := by
  intro values
  have hkinds : ∀ v ∈ values, v.isMissing = false → v.number?.isSome = true := by decide +kernel
  have hmin : ("min", Ordering.lt) ∈ extremeSides := List.mem_cons_self
  obtain ⟨f, result, hf, hresult, -, -, -, hperm⟩ := extreme_shows_first hmin hkinds
  have htwo : result = Value.ofInt 2 := by
    cases hf
    have hrun : extreme .lt values = .ok (Value.ofInt 2) := by decide +kernel
    exact Except.ok.inj (hresult.symm.trans hrun)
  rw [htwo] at hresult hperm
  exact ⟨hmin, hkinds, f, hf, hresult, hperm rfl _ values.reverse_perm⟩

end JsonTables.Function
