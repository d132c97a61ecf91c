/-
  JsonTables.Proofs.Binary64.Rounding — rounding depends on the ratio alone and keeps what is exact.

  `floorLog2` is the integer logarithm of the ratio, so numerator and denominator may be multiplied by
  one number. The ratio of a canonical significand and exponent has its own exponent as its grid.

  Proved:
  - `ofRatio_mul`: a common factor changes nothing.
  - `ofRatio_exact`: the exact ratio of a number is rounded to the number.
-/

import JsonTables.Binary64.Basic
import Mathlib.Data.Int.Log
import Mathlib.Data.Rat.Floor
import Mathlib.Tactic.FieldSimp
import Mathlib.Tactic.Positivity

namespace JsonTables.Binary64

/-! ## The logarithm of a ratio -/

theorem natCast_zpow (b : Nat) (k : Int) : (b : ℚ) ^ k = (Nat.pow b k.toNat : Nat) / (Nat.pow b (-k).toNat : Nat) := by
  rcases Int.le_total 0 k with h | h
  · obtain ⟨n, rfl⟩ := Int.eq_ofNat_of_zero_le h
    simp
  · obtain ⟨n, hn⟩ := Int.eq_ofNat_of_zero_le (show 0 ≤ -k by omega)
    obtain rfl : k = -(n : Int) := by omega
    simp

theorem two_zpow (k : Int) : (2 : ℚ) ^ k = (Nat.pow 2 k.toNat : Nat) / (Nat.pow 2 (-k).toNat : Nat) := by
  rw [← natCast_zpow, Nat.cast_ofNat]

theorem lt_zpow_iff {num den : Nat} (hd : 0 < den) (k : Int) :
    num * Nat.pow 2 (-k).toNat < den * Nat.pow 2 k.toNat ↔ (num / den : ℚ) < 2 ^ k := by
  have hpos : 0 < Nat.pow 2 (-k).toNat := Nat.pow_pos (by decide)
  rw [two_zpow, div_lt_div_iff₀ (by exact_mod_cast hd) (by exact_mod_cast hpos), mul_comm ((Nat.pow 2 k.toNat : Nat) : ℚ)]
  exact_mod_cast Iff.rfl

theorem zpow_le_iff {r : ℚ} (hr : 0 < r) (k : Int) : (2 : ℚ) ^ k ≤ r ↔ k ≤ Int.log 2 r := by
  exact_mod_cast Int.zpow_le_iff_le_log (R := ℚ) (b := 2) (by decide) hr

theorem lt_zpow_iff_log {r : ℚ} (hr : 0 < r) (k : Int) : r < (2 : ℚ) ^ k ↔ Int.log 2 r < k := by
  exact_mod_cast Int.lt_zpow_iff_log_lt (R := ℚ) (b := 2) (by decide) hr

theorem floorLog2_eq {num den : Nat} (hn : 0 < num) (hd : 0 < den) :
    floorLog2 num den = Int.log 2 (num / den : ℚ) := by
  have hnq : (0 : ℚ) < num := by exact_mod_cast hn
  have hdq : (0 : ℚ) < den := by exact_mod_cast hd
  have hpos : (0 : ℚ) < num / den := div_pos hnq hdq
  have hn1 : (2 : ℚ) ^ num.log2 ≤ num := by exact_mod_cast Nat.log2_self_le hn.ne'
  have hn2 : (num : ℚ) < 2 ^ (num.log2 + 1) := by exact_mod_cast Nat.lt_log2_self
  have hd1 : (2 : ℚ) ^ den.log2 ≤ den := by exact_mod_cast Nat.log2_self_le hd.ne'
  have hd2 : (den : ℚ) < 2 ^ (den.log2 + 1) := by exact_mod_cast Nat.lt_log2_self
  have hlow : (num.log2 : Int) - den.log2 - 1 ≤ Int.log 2 (num / den : ℚ) := by
    rw [← zpow_le_iff hpos, show (num.log2 : Int) - den.log2 - 1 = num.log2 - ((den.log2 + 1 : Nat) : Int) by omega,
      zpow_sub₀ (by decide), zpow_natCast, zpow_natCast]
    gcongr
  have hhigh : Int.log 2 (num / den : ℚ) < (num.log2 : Int) - den.log2 + 1 := by
    rw [← lt_zpow_iff_log hpos, show (num.log2 : Int) - den.log2 + 1 = ((num.log2 + 1 : Nat) : Int) - den.log2 by omega,
      zpow_sub₀ (by decide), zpow_natCast, zpow_natCast]
    gcongr
  unfold floorLog2
  dsimp only
  split
  · rename_i hlt
    rw [lt_zpow_iff hd, lt_zpow_iff_log hpos] at hlt
    omega
  · rename_i hge
    rw [lt_zpow_iff hd, lt_zpow_iff_log hpos] at hge
    omega

/-! ## Common factors -/

theorem floorLog2_mul {c num den : Nat} (hc : 0 < c) (hn : 0 < num) (hd : 0 < den) :
    floorLog2 (c * num) (c * den) = floorLog2 num den := by
  have hcq : (c : ℚ) ≠ 0 := by exact_mod_cast hc.ne'
  rw [floorLog2_eq (Nat.mul_pos hc hn) (Nat.mul_pos hc hd), floorLog2_eq hn hd]
  push_cast
  rw [mul_div_mul_left _ _ hcq]

theorem gridExponent_mul {c num den : Nat} (hc : 0 < c) (hd : 0 < den) :
    gridExponent (c * num) (c * den) = gridExponent num den := by
  unfold gridExponent
  by_cases hn : num = 0
  · simp [hn]
  · have hcn : c * num ≠ 0 := Nat.mul_ne_zero hc.ne' hn
    rw [if_neg hcn, if_neg hn, floorLog2_mul hc (Nat.pos_of_ne_zero hn) hd]

theorem compare_mul {c a b : Nat} (hc : 0 < c) : compare (c * a) (c * b) = compare a b := by
  simp [Nat.compare_eq_ite_lt, hc]

theorem roundQuotient_mul {c num den : Nat} (hc : 0 < c) : roundQuotient (c * num) (c * den) = roundQuotient num den := by
  unfold roundQuotient
  rw [Nat.mul_div_mul_left _ _ hc, Nat.mul_mod_mul_left, ← Nat.mul_assoc, Nat.mul_comm 2 c, Nat.mul_assoc,
    compare_mul hc]

theorem ofRatio_mul (negative : Bool) {c num den : Nat} (hc : 0 < c) (hd : 0 < den) :
    ofRatio negative (c * num) (c * den) = ofRatio negative num den := by
  unfold ofRatio
  dsimp only
  rw [gridExponent_mul hc hd, Nat.mul_assoc, Nat.mul_assoc, roundQuotient_mul hc]

/-! ## Exact ratios -/

theorem roundQuotient_exact {m den : Nat} (hd : 0 < den) : roundQuotient (m * den) den = m := by
  unfold roundQuotient
  have hlt : compare (2 * (m * den % den)) den = .lt := by
    simp [Nat.compare_eq_ite_lt, hd]
  rw [hlt, Nat.mul_div_cancel m hd]

/-- The grid of a canonical number is its exponent. -/
theorem gridExponent_exact {m : Nat} {e : Int} (h : Canonical m e) :
    gridExponent (m * Nat.pow 2 e.toNat) (Nat.pow 2 (-e).toNat) = e := by
  have htwo (n : Nat) : 0 < Nat.pow 2 n := Nat.pow_pos (by decide)
  unfold gridExponent
  by_cases hm : m = 0
  · rcases h with ⟨_, he⟩ | ⟨hle, _⟩
    · simp [hm, he]
    · rw [hm] at hle
      exact absurd hle (by decide)
  · have hnum : 0 < m * Nat.pow 2 e.toNat := Nat.mul_pos (Nat.pos_of_ne_zero hm) (htwo _)
    rw [if_neg hnum.ne', floorLog2_eq hnum (htwo _)]
    have hmq : (0 : ℚ) < m := by exact_mod_cast Nat.pos_of_ne_zero hm
    have hratio : ((m * Nat.pow 2 e.toNat : Nat) / (Nat.pow 2 (-e).toNat : Nat) : ℚ) = m * 2 ^ e := by
      rw [two_zpow e]
      push_cast
      ring
    have hpow : (0 : ℚ) < 2 ^ e := zpow_pos (by decide) e
    have hpos : (0 : ℚ) < m * 2 ^ e := mul_pos hmq hpow
    have hlow {k : Nat} (hk : Nat.pow 2 k ≤ m) : e + k ≤ Int.log 2 (m * 2 ^ e : ℚ) := by
      have hkq : (2 : ℚ) ^ k ≤ m := by exact_mod_cast hk
      rw [← zpow_le_iff hpos, zpow_add₀ (by decide), zpow_natCast, mul_comm]
      gcongr
    have hhigh {k : Nat} (hk : m < Nat.pow 2 k) : Int.log 2 (m * 2 ^ e : ℚ) < e + k := by
      have hkq : (m : ℚ) < 2 ^ k := by exact_mod_cast hk
      rw [← lt_zpow_iff_log hpos, zpow_add₀ (by decide), zpow_natCast, mul_comm]
      gcongr
    rw [hratio]
    rcases h with ⟨hlt, he⟩ | ⟨hle, hlt, he, _⟩
    · have h52 := hhigh hlt
      push_cast at h52
      omega
    · have h52 := hlow hle
      have h53 := hhigh hlt
      push_cast at h52 h53
      omega

theorem ofRatio_exact (negative : Bool) {m : Nat} {e : Int} (h : Canonical m e) :
    ofRatio negative (m * Nat.pow 2 e.toNat) (Nat.pow 2 (-e).toNat) = finite negative m e h := by
  have hround : roundQuotient (m * Nat.pow 2 e.toNat * Nat.pow 2 (-e).toNat)
      (Nat.pow 2 (-e).toNat * Nat.pow 2 e.toNat) = m := by
    rw [Nat.mul_assoc, Nat.mul_comm (Nat.pow 2 e.toNat)]
    exact roundQuotient_exact (Nat.mul_pos (Nat.pow_pos (by decide)) (Nat.pow_pos (by decide)))
  have hm : m ≠ Nat.pow 2 53 := by
    rcases h with ⟨hlt, _⟩ | ⟨_, hlt, _⟩
    · exact (Nat.lt_trans hlt (by decide)).ne
    · exact hlt.ne
  simp only [ofRatio, gridExponent_exact h, hround, if_neg hm, pack, dif_pos h]

end JsonTables.Binary64
