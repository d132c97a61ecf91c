/-
  JsonTables.Proofs.Function.Position — where `instr` says that one text stands in another.

  The texts are put into lower case before the search, and the place in the lower case is given as a place in the text.
  Without a dotted capital and with no capital sigma at stake these are the same places. Each dotted capital in front
  of the part puts the place given one further on, and a sigma may be looked for in another shape than it has at the end
  of the part.

  Proved:
  - `matchesAt_iff`: the part at a place, told by the characters.
  - `position_of_keepsPlaces`: the first place of a part, and the place that is given.
  - `position_behind_dottedCapital`: which is a wrong one.
-/

import JsonTables.Function.OfText
import JsonTables.Proofs.Text.Lower

namespace JsonTables.Function

/-- The part of the text `s` from the place `p` on that is as long as `t` is `t` without regard to case. -/
def MatchesAt (s t : String) (p : Int) : Prop :=
  ∃ w, (length [.text t] >>= fun n => substring [.text s, .ofInt p, n]) = .ok (.text w) ∧ Text.lower w = Text.lower t

theorem substring_window (s t : String) (p : Int) :
    (length [.text t] >>= fun n => substring [.text s, .ofInt p, n]) =
      .ok (.text (String.ofList (Text.window s.toList (p - 1).toNat t.length))) := rfl

theorem matchesAt_iff {s t : String} {p : Int} : MatchesAt s t p ↔
    Text.lowerFrom [] (Text.window s.toList (p - 1).toNat t.length) = Text.lowerFrom [] t.toList := by
  unfold MatchesAt
  rw [substring_window]
  constructor
  · rintro ⟨w, hw, hlower⟩
    cases hw
    simpa only [Text.lower, String.toList_ofList, String.ofList_inj] using hlower
  · intro h
    exact ⟨_, rfl, by rw [Text.lower, Text.lower, String.toList_ofList, h]⟩

theorem position_eq (s t : String) : position [.text s, .text t] = .ok (.ofInt
    (match Text.find? (Text.lowerFrom [] t.toList) (Text.lowerFrom [] s.toList) with
      | some i => i + 1
      | none => 0)) := by
  have hlower (r : String) : (Text.lower r).toList = Text.lowerFrom [] r.toList := String.toList_ofList
  rw [← hlower, ← hlower]
  rfl

/-- For all texts `s` and `t`, `t` not empty, whose places lower case keeps: zero is given exactly where `t` stands
nowhere in `s`, and else the first place where it stands, one further on for each dotted capital in front of it. So the
place is the right one where there is none. -/
theorem position_of_keepsPlaces {s t : String} (ht : t ≠ "") (h : Text.KeepsPlaces s.toList t.toList) :
    ∃ r : Nat, position [.text s, .text t] = .ok (.ofInt r) ∧ (r = 0 → ∀ q, ¬MatchesAt s t q) ∧
      (0 < r → ∃ p : Nat, 0 < p ∧ MatchesAt s t p ∧ (∀ q : Int, 1 ≤ q → q < p → ¬MatchesAt s t q) ∧
        r = p + (s.toList.take (p - 1)).count Text.dottedCapital ∧
        (Text.dottedCapital ∉ s.toList.take (p - 1) → r = p)) := by
  obtain ⟨f, hf, hfind, hwindow⟩ := h.exists_reading
  have hlength : (Text.lowerFrom [] t.toList).length = t.length := by
    rw [Text.length_lowerFrom h.length, String.length_toList]
  have hne : Text.lowerFrom [] t.toList ≠ [] := by
    rw [← List.length_pos_iff, hlength]
    exact Nat.pos_of_ne_zero (String.length_eq_zero_iff.not.mpr ht)
  rw [position_eq, hfind]
  simp only [matchesAt_iff, hwindow, ← hlength]
  cases hresult : Text.find? (Text.lowerFrom [] t.toList) (s.toList.flatMap f) with
  | none =>
    exact ⟨0, rfl, fun _ q => Text.window_ne_of_find?_eq_none hresult _ _, fun h => absurd h (Nat.lt_irrefl 0)⟩
  | some i =>
    obtain ⟨k, hk, hnone, hi⟩ := hf.exists_window hne h.dots hresult
    refine ⟨i + 1, rfl, fun h => absurd h (Nat.succ_ne_zero i), fun _ => ⟨k + 1, Nat.succ_pos k, ?_, ?_, ?_, ?_⟩⟩
    · simpa using hk
    · intro q hq hqk
      exact hnone _ (by omega)
    · rw [Nat.add_sub_cancel, hi]
      omega
    · intro hplain
      rw [Nat.add_sub_cancel] at hplain
      rw [hi, List.count_eq_zero.mpr hplain]

/-- The part stands behind a dotted capital, in another case, and the place given is one further on. -/
theorem position_of_keepsPlaces_accent :
    "éS" ≠ "" ∧ Text.KeepsPlaces "İ CAFÉS".toList "éS".toList ∧
      position [.text "İ CAFÉS", .text "éS"] = .ok (.ofInt 7) ∧
      ∃ p : Nat, MatchesAt "İ CAFÉS" "éS" p ∧ 7 = p + ("İ CAFÉS".toList.take (p - 1)).count Text.dottedCapital := by
  have hkeeps : Text.KeepsPlaces "İ CAFÉS".toList "éS".toList := by
    constructor <;> decide +kernel
  have hseven : position [.text "İ CAFÉS", .text "éS"] = .ok (.ofInt 7) := by decide +kernel
  obtain ⟨r, hr, -, hfound⟩ := position_of_keepsPlaces (by decide) hkeeps
  have hr7 : (r : Int) = 7 := by simpa [Value.ofInt] using hr.symm.trans hseven
  obtain rfl : r = 7 := Int.ofNat.inj hr7
  obtain ⟨p, -, hp, -, hplace, -⟩ := hfound (by decide)
  exact ⟨by decide, hkeeps, hseven, p, hp, hplace⟩

/-- Behind a dotted capital a place is given where the part does not stand, and a sigma at the end of a word is not
found. -/
theorem position_behind_dottedCapital :
    (position [.text "İx", .text "x"] = .ok (.ofInt 3) ∧ ¬MatchesAt "İx" "x" 3 ∧ MatchesAt "İx" "x" 2) ∧
    (position [.text "ΑΣ", .text "Σ"] = .ok (.ofInt 0) ∧ MatchesAt "ΑΣ" "Σ" 2) ∧
    position [.text "i\u0307", .text "İ"] = .ok (.ofInt 1) ∧ ¬MatchesAt "i\u0307" "İ" 1 := by
  simp only [matchesAt_iff]
  decide +kernel

end JsonTables.Function
