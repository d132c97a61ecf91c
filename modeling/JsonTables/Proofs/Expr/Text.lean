/-
  JsonTables.Proofs.Expr.Text — dotted names and their segments.

  Proved:
  - `intercalate_pathSegments`: the segments with dots between them are the name.
  - `pathSegments_intercalate`: texts without dots are the segments of what they make with dots between them.
  - `dot_mem_render_column`: a name with more than one segment keeps its dot when it is printed.
-/

import JsonTables.Expr.Text

namespace JsonTables

theorem splitOn_eq (sep : Char) (cs : List Char) : Text.splitOn sep cs = cs.splitOn sep := by
  induction cs with
  | nil => rfl
  | cons c cs ih =>
    rw [Text.splitOn, List.splitOn_cons_eq_if_modifyHead, ih]
    obtain ⟨piece, pieces, hp⟩ := List.exists_cons_of_ne_nil (List.splitOn_ne_nil sep cs)
    simp only [hp, List.modifyHead_cons, beq_iff_eq]

/-- Pieces with the separator between them and behind the last have it behind each. -/
theorem intercalate_append_sep (sep : Char) {pieces : List (List Char)} (h : pieces ≠ []) :
    [sep].intercalate pieces ++ [sep] = pieces.flatMap (· ++ [sep]) := by
  induction pieces with
  | nil => exact absurd rfl h
  | cons piece pieces ih =>
    by_cases hpieces : pieces = []
    · subst hpieces
      simp
    · rw [List.intercalate_cons_of_ne_nil hpieces, List.append_assoc, ih hpieces]
      rfl

theorem pathSegments_ne_nil (name : String) : pathSegments name ≠ [] := by
  simp [pathSegments, splitOn_eq]

theorem intercalate_pathSegments (name : String) : ".".intercalate (pathSegments name) = name := by
  have hid : String.toList ∘ String.ofList = id := funext fun cs => String.toList_ofList
  rw [← String.toList_inj, String.toList_intercalate, pathSegments, List.map_map, hid, List.map_id, splitOn_eq]
  exact List.intercalate_splitOn '.'

theorem pathSegments_intercalate {segments : List String} (hne : segments ≠ []) (h : ∀ s ∈ segments, '.' ∉ s.toList) :
    pathSegments (".".intercalate segments) = segments := by
  have hid : String.ofList ∘ String.toList = id := funext fun s => String.ofList_toList
  have hsplit : List.splitOn '.' (['.'].intercalate (segments.map String.toList)) = segments.map String.toList :=
    List.splitOn_intercalate '.' (List.forall_mem_map.mpr h) (by simpa using hne)
  rw [pathSegments, splitOn_eq, String.toList_intercalate]
  show (List.splitOn '.' (['.'].intercalate (segments.map String.toList))).map String.ofList = segments
  rw [hsplit, List.map_map, hid, List.map_id]

theorem intercalate_concat {segments : List String} (hne : segments ≠ []) (separator s : String) :
    separator.intercalate (segments ++ [s]) = separator.intercalate segments ++ separator ++ s := by
  induction segments with
  | nil => exact absurd rfl hne
  | cons t rest ih =>
    cases rest with
    | nil => simp [String.intercalate_cons_cons]
    | cons u rest =>
      have hrest := ih (List.cons_ne_nil _ _)
      rw [List.cons_append, List.cons_append, String.intercalate_cons_cons, String.intercalate_cons_cons,
        ← List.cons_append, hrest]
      simp only [String.append_assoc]

theorem sep_notMem_splitOn {sep : Char} {cs : List Char} : ∀ piece ∈ Text.splitOn sep cs, sep ∉ piece := by
  induction cs with
  | nil => simp [Text.splitOn]
  | cons c cs ih =>
    unfold Text.splitOn
    split
    · simpa using ih
    · rename_i hc
      split
      · rename_i piece pieces hp
        rw [hp] at ih
        simpa [Ne.symm hc] using ih
      · simp [Ne.symm hc]

theorem dot_notMem_of_mem {name s : String} (h : s ∈ pathSegments name) : '.' ∉ s.toList := by
  obtain ⟨piece, hpiece, rfl⟩ := List.mem_map.mp h
  rw [String.toList_ofList]
  exact sep_notMem_splitOn piece hpiece

theorem dot_notMem_leafOf (name : String) : '.' ∉ (leafOf name).toList := by
  have hleaf : leafOf name ∈ pathSegments name := by
    rw [leafOf, List.getLastD_eq_getLast?, List.getLast?_eq_some_getLast (pathSegments_ne_nil name), Option.getD_some]
    exact List.getLast_mem _
  exact dot_notMem_of_mem hleaf

/-- Between two texts stands a dot, whatever they are. -/
theorem dot_mem_intercalate {segments : List String} (h : 1 < segments.length) :
    '.' ∈ (".".intercalate segments).toList := by
  obtain ⟨s, t, rest, rfl⟩ : ∃ s t rest, segments = s :: t :: rest := by
    match segments, h with
    | s :: t :: rest, _ => exact ⟨s, t, rest, rfl⟩
  simp [String.intercalate_cons_cons]

/-- A name that is not its own last segment has more than one. -/
theorem one_lt_length_pathSegments {name : String} (h : leafOf name ≠ name) : 1 < (pathSegments name).length := by
  match hs : pathSegments name with
  | [] => exact absurd hs (pathSegments_ne_nil name)
  | [s] =>
    have hname := intercalate_pathSegments name
    rw [hs, String.intercalate_singleton] at hname
    exact absurd (by simp [leafOf, hs, hname]) h
  | _ :: _ :: _ => simp

theorem dot_mem_render_column {name : String} (h : leafOf name ≠ name) (fold : String → String) :
    '.' ∈ ((Expr.column name).renderWith fold).toList := by
  rw [Expr.renderWith]
  exact dot_mem_intercalate (by simpa using one_lt_length_pathSegments h)

theorem dot_mem_of_leafOf_ne {name : String} (h : leafOf name ≠ name) : '.' ∈ name.toList := by
  rw [← intercalate_pathSegments name]
  exact dot_mem_intercalate (one_lt_length_pathSegments h)

end JsonTables
