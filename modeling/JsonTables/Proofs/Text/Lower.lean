/-
  JsonTables.Proofs.Text.Lower — lower case beside the text that it is made of.

  Every character becomes one, with two exceptions. The dotted capital `İ` becomes an `i` and a dot on its own, and a
  capital sigma becomes one of two small ones by what stands around it. So a part that is cut out of a text may have
  another lower case than it has there. Where the sigmas are left out of account the lower case of a part is the part
  of the lower case, up to the places behind each `İ`.

  Proved:
  - `lowerFrom_eq_iff`: which texts have a lower case in ASCII.
  - `lowerFrom_of_not_mem`, `map_blurSigma_lowerFrom`: lower case character by character.
  - `exists_reading`: a text is searched, and its parts compared, character by character.
-/

import JsonTables.Proofs.Text.Search
import JsonTables.Text.Case

namespace JsonTables.Text

/-- The dotted capital, and the dot that is a character of its own in its lower case. -/
def dottedCapital : Char := 'İ'

def loneDot : Char := '\u0307'

/-- A run moves a character, or it stays. -/
theorem mapCase_lower {c : Char} (h : c ≠ dottedCapital) :
    mapCase lowerRuns lowerExpansions c = [(lowerRuns.findSome? (CaseRun.move? · c)).getD c] := by
  have hsource : ∀ e ∈ lowerExpansions, e.source = dottedCapital.toNat := by decide
  have hnone : lowerExpansions.find? (·.source == c.toNat) = none := by
    rw [List.find?_eq_none]
    intro e he
    rw [hsource e he, beq_iff_eq, Char.toNat_inj]
    exact Ne.symm h
  unfold mapCase
  rw [hnone]
  cases lowerRuns.findSome? (CaseRun.move? · c) <;> rfl

theorem lowerChar_eq_one {c : Char} (h : c ≠ dottedCapital) : ∃ d, lowerChar c = [d] := by
  unfold lowerChar
  split
  · exact ⟨_, rfl⟩
  · exact ⟨_, mapCase_lower h⟩

theorem widening_lowerChar : Widening lowerChar dottedCapital 'i' loneDot where
  two := by decide +kernel
  one _ h := lowerChar_eq_one h

/-! ## ASCII -/

/-- Beyond ASCII the lower case is beyond ASCII, but for the sign of the kelvin, which becomes a `k`. -/
theorem lowerRuns_beyond : ∀ run ∈ lowerRuns, run.last < 0x80 ∨ run = ⟨0x212a, 0x212a, 1, -8383⟩ ∨
    0x80 ≤ run.first + run.shift ∧ (run.last + run.shift < 0xd800 ∨
      0xdfff < run.first + run.shift ∧ run.last + run.shift < 0x110000) := by
  decide +kernel

theorem move?_beyond {run : CaseRun} (hrun : run ∈ lowerRuns) {c d : Char} (h : run.move? c = some d)
    (hc : 0x80 ≤ c.toNat) : d = 'k' ∨ 0x80 ≤ d.toNat := by
  obtain ⟨hin, hd⟩ := Option.ite_none_right_eq_some.mp h
  rw [Option.some.injEq] at hd
  rcases lowerRuns_beyond run hrun with hlast | rfl | hbeyond
  · omega
  · have hkelvin : c.toNat = 0x212a := Nat.le_antisymm hin.2.1 hin.1
    rw [hkelvin] at hd
    exact .inl hd.symm
  · have hvalid : (c.toNat + run.shift).toNat.isValidChar := by
      unfold Nat.isValidChar
      omega
    have hvalue : d.toNat = (c.toNat + run.shift).toNat := by
      rw [← hd, Char.ofNat, dif_pos hvalid]
      rfl
    omega

/-- No character beyond ASCII has a lower case in ASCII other than a `k`. -/
theorem toLower_of_lowerChar {c d : Char} (h : lowerChar c = [d]) (hd : d.toNat < 0x80) (hk : d ≠ 'k') :
    c.toNat < 0x80 ∧ c.toLower = d := by
  by_cases hc : c.toNat < 0x80
  · rw [lowerChar, if_pos hc] at h
    exact ⟨hc, List.singleton_inj.mp h⟩
  · have hdotted : c ≠ dottedCapital := by
      intro he
      rw [he, widening_lowerChar.two] at h
      cases h
    rw [lowerChar, if_neg hc, mapCase_lower hdotted, List.singleton_inj] at h
    cases hmove : lowerRuns.findSome? (CaseRun.move? · c) with
    | none =>
      rw [hmove, Option.getD_none] at h
      exact absurd (h ▸ hd) hc
    | some e =>
      rw [hmove, Option.getD_some] at h
      obtain ⟨run, hrun, hmove⟩ := List.exists_of_findSome?_eq_some hmove
      rcases move?_beyond hrun (h ▸ hmove) (by omega) with he | he
      · exact absurd he hk
      · omega

/-- What holds of every character of ASCII, one by one. -/
theorem forall_ascii {P : Char → Prop} (h : ∀ n < 0x80, P (Char.ofNat n)) (c : Char) (hc : c.toNat < 0x80) : P c := by
  have hp := h c.toNat hc
  rwa [Char.ofNat_toNat] at hp

theorem lowerFrom_of_ascii {cs : List Char} (h : ∀ c ∈ cs, c.toNat < 0x80) (before : List Char) :
    lowerFrom before cs = cs.map Char.toLower := by
  induction cs generalizing before with
  | nil => rfl
  | cons c cs ih =>
    obtain ⟨hc, hcs⟩ := List.forall_mem_cons.mp h
    have hsigma : c ≠ 'Σ' := by
      rintro rfl
      exact absurd hc (by decide)
    rw [lowerFrom, if_neg hsigma, lowerChar, if_pos hc, ih hcs]
    rfl

/-- The texts that have some ASCII characters for their lower case, none of them a `k`, are ASCII too. -/
theorem lowerFrom_eq_iff {cs ds : List Char} (hds : ∀ d ∈ ds, d.toNat < 0x80 ∧ d ≠ 'k') (before : List Char) :
    lowerFrom before cs = ds ↔ (∀ c ∈ cs, c.toNat < 0x80) ∧ cs.map Char.toLower = ds := by
  constructor
  · intro h
    suffices hascii : ∀ c ∈ cs, c.toNat < 0x80 from ⟨hascii, (lowerFrom_of_ascii hascii before).symm.trans h⟩
    induction cs generalizing before ds with
    | nil => exact List.forall_mem_nil _
    | cons c cs ih =>
      rw [lowerFrom] at h
      have hpiece (d : Char) (hd : 0x80 ≤ d.toNat) : d ∉ (if c = 'Σ'
          then [if meetsLetter before && !meetsLetter cs then 'ς' else 'σ'] else lowerChar c) := by
        intro hmem
        have hlt := (hds d (h ▸ List.mem_append_left _ hmem)).1
        omega
      have hsigma : c ≠ 'Σ' := by
        intro hc
        rw [if_pos hc] at hpiece
        split at hpiece
        · exact hpiece 'ς' (by decide) (List.mem_singleton.mpr rfl)
        · exact hpiece 'σ' (by decide) (List.mem_singleton.mpr rfl)
      have hdotted : c ≠ dottedCapital := by
        intro hc
        rw [if_neg hsigma, hc, widening_lowerChar.two] at hpiece
        exact hpiece loneDot (by decide) (by simp)
      obtain ⟨d, hd⟩ := lowerChar_eq_one hdotted
      rw [if_neg hsigma, hd, List.singleton_append] at h
      rw [← h] at hds
      obtain ⟨⟨hlt, hk⟩, hrest⟩ := List.forall_mem_cons.mp hds
      exact List.forall_mem_cons.mpr ⟨(toLower_of_lowerChar hd hlt hk).1, ih hrest _ rfl⟩
  · rintro ⟨hascii, hmap⟩
    rw [lowerFrom_of_ascii hascii, hmap]

/-! ## Sigmas -/

/-- Without a capital sigma what stands around a character does not matter. -/
theorem lowerFrom_of_not_mem {cs : List Char} (h : 'Σ' ∉ cs) (before : List Char) :
    lowerFrom before cs = cs.flatMap lowerChar := by
  induction cs generalizing before with
  | nil => rfl
  | cons c cs ih =>
    rw [List.mem_cons, not_or] at h
    rw [lowerFrom, if_neg (Ne.symm h.1), ih h.2, List.flatMap_cons]

/-- The small sigma for either of the two. -/
def blurSigma (c : Char) : Char := if c = 'ς' then 'σ' else c

/-- Lower case of one character with the two small sigmas taken for one. -/
def blurredChar (c : Char) : List Char := (lowerChar c).map blurSigma

theorem widening_blurredChar : Widening blurredChar dottedCapital 'i' loneDot where
  two := by
    rw [blurredChar, widening_lowerChar.two]
    decide
  one c h := by
    obtain ⟨d, hd⟩ := lowerChar_eq_one h
    exact ⟨blurSigma d, by rw [blurredChar, hd]; rfl⟩

theorem map_blurSigma_lowerFrom (before cs : List Char) :
    (lowerFrom before cs).map blurSigma = cs.flatMap blurredChar := by
  induction cs generalizing before with
  | nil => rfl
  | cons c cs ih =>
    rw [lowerFrom, List.map_append, ih, List.flatMap_cons]
    congr 1
    by_cases hc : c = 'Σ'
    · subst hc
      have hsmall : blurredChar 'Σ' = ['σ'] := by decide +kernel
      rw [if_pos rfl, hsmall]
      split <;> rfl
    · rw [if_neg hc]
      rfl

theorem length_lowerFrom {cs : List Char} (h : dottedCapital ∉ cs) (before : List Char) :
    (lowerFrom before cs).length = cs.length := by
  rw [← List.length_map blurSigma, map_blurSigma_lowerFrom, widening_blurredChar.length_flatMap_of_not_mem h]

section

variable {part : List Char} (hpart : 'σ' ∉ part ∧ 'ς' ∉ part)

include hpart

/-- What holds no small sigma is not changed by taking the two for one, nor made by it. -/
theorem map_blurSigma_eq_iff {cs : List Char} : cs.map blurSigma = part ↔ cs = part := by
  induction cs generalizing part with
  | nil => rfl
  | cons c cs ih =>
    cases part with
    | nil => simp
    | cons d part =>
      simp only [List.mem_cons, not_or] at hpart
      rw [List.map_cons, List.cons.injEq, List.cons.injEq, ih ⟨hpart.1.2, hpart.2.2⟩]
      refine and_congr_left fun _ => ?_
      unfold blurSigma
      split
      · rename_i hc
        subst hc
        exact ⟨fun h => absurd h hpart.1.1, fun h => absurd h hpart.2.1⟩
      · rfl

theorem prefix_map_blurSigma_iff {cs : List Char} : part <+: cs.map blurSigma ↔ part <+: cs := by
  rw [List.prefix_iff_eq_take, List.prefix_iff_eq_take, ← List.map_take, eq_comm, map_blurSigma_eq_iff hpart, eq_comm]

theorem find?_map_blurSigma (cs : List Char) : find? part (cs.map blurSigma) = find? part cs := by
  refine Option.ext fun i => ?_
  simp only [find?_eq_some_iff, List.length_map, ← List.map_drop, prefix_map_blurSigma_iff hpart]

end

/-! ## Searching in lower case -/

/-- The lower case of the part is neither cut by a dotted capital of the text, nor of other length, nor does it hold a
sigma where the text holds a capital one. -/
structure KeepsPlaces (cs part : List Char) : Prop where
  length : dottedCapital ∉ part
  dots : dottedCapital ∉ cs ∨ loneDot ∉ lowerFrom [] part ∧ (lowerFrom [] part).getLast? ≠ some 'i'
  sigmas : 'Σ' ∉ cs ∨ 'σ' ∉ lowerFrom [] part ∧ 'ς' ∉ lowerFrom [] part

/-- The part is looked for in the text, and compared with parts of it, character by character. -/
theorem KeepsPlaces.exists_reading {cs part : List Char} (h : KeepsPlaces cs part) :
    ∃ f, Widening f dottedCapital 'i' loneDot ∧
      find? (lowerFrom [] part) (lowerFrom [] cs) = find? (lowerFrom [] part) (cs.flatMap f) ∧
      ∀ k n, lowerFrom [] (window cs k n) = lowerFrom [] part ↔ (window cs k n).flatMap f = lowerFrom [] part := by
  rcases h.sigmas with hcs | hpart
  · refine ⟨lowerChar, widening_lowerChar, by rw [lowerFrom_of_not_mem hcs], fun k n => ?_⟩
    have hwindow : 'Σ' ∉ window cs k n := fun hmem => hcs (List.mem_of_mem_drop (List.mem_of_mem_take hmem))
    rw [lowerFrom_of_not_mem hwindow]
  · refine ⟨blurredChar, widening_blurredChar, ?_, fun k n => ?_⟩
    · rw [← map_blurSigma_lowerFrom [], find?_map_blurSigma hpart]
    · rw [← map_blurSigma_lowerFrom [], map_blurSigma_eq_iff hpart]

end JsonTables.Text
