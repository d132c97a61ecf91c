/-
  JsonTables.Proofs.Binary64.Nearest — rounding finds the nearest number.

  A ratio is rounded on a grid of multiples of a power of two. On its grid it has at most 53 bits, and 53 just if the
  grid is not the finest, so a number between two points of the grid is further away than the lower end of the
  binade. Beyond the greatest number the grid goes on by one point, where the infinity stands.

  Proved:
  - `roundQuotient_cases`: the rounded quotient is nearer than any other integer, or even and as near.
  - `nearest_ofRatio_false`: a ratio is rounded to the nearest number, a tie to an even one.
  - `nearest_ofDecimal`: so is a decimal, however great its power of ten.
-/

import JsonTables.Proofs.Binary64.Decimal
import JsonTables.Proofs.Binary64.Remainder
import Mathlib.Algebra.Order.Field.Power

namespace JsonTables.Binary64

/-! ## Numbers on the line -/

/-- A magnitude with a sign. -/
def withSign (negative : Bool) (q : ℚ) : ℚ := if negative then -q else q

/-- Where one more number would stand behind the greatest. -/
def limit : ℚ := 2 ^ (1024 : Int)

/-- Where a number stands among the rational ones, an infinity at the limit. -/
def place (x : Binary64) : ℚ := x.value?.getD (withSign x.isNegative limit)

/-- Whether the last bit of the significand is zero. An infinity counts as the number in its place. -/
def isEven : Binary64 → Bool
  | finite _ m _ _ => m % 2 == 0
  | _ => true

/-- No number is nearer, and if one in another place is as near, the number is even. -/
structure Nearest (q : ℚ) (x : Binary64) : Prop where
  isNumber : x ≠ nan
  le : ∀ y, y ≠ nan → |x.place - q| ≤ |y.place - q|
  even : ∀ y, y ≠ nan → y.place ≠ x.place → |y.place - q| = |x.place - q| → x.isEven = true

theorem place_finite (negative : Bool) {m : Nat} {e : Int} (h : Canonical m e) :
    (finite negative m e h).place = withSign negative (m * 2 ^ e) := by
  rw [place, value?_finite, Option.getD_some, Rat.mkRat_eq_div, two_zpow]
  cases negative
  · simp [signed, withSign, mul_div_assoc]
  · simp [signed, withSign, mul_div_assoc, neg_div]

theorem place_infinity (negative : Bool) : (infinity negative).place = withSign negative limit := rfl

theorem place_neg {x : Binary64} (h : x ≠ nan) : x.neg.place = -x.place := by
  cases x with
  | finite negative m e hc =>
    show (finite (!negative) m e hc).place = _
    rw [place_finite, place_finite]
    cases negative <;> simp [withSign]
  | infinity negative =>
    show (infinity (!negative)).place = _
    rw [place_infinity, place_infinity]
    cases negative <;> simp [withSign]
  | nan => exact absurd rfl h

theorem neg_ne_nan {x : Binary64} (h : x ≠ nan) : x.neg ≠ nan := by
  cases x <;> simp_all [neg]

theorem isEven_neg (x : Binary64) : x.neg.isEven = x.isEven := by
  cases x <;> rfl

theorem Nearest.neg {q : ℚ} {x : Binary64} (h : Nearest q x) : Nearest (-q) x.neg := by
  have hdist {y : Binary64} (hy : y ≠ nan) : |y.place - -q| = |y.neg.place - q| := by
    rw [place_neg hy, ← abs_neg]
    congr 1
    ring
  have hx : |x.neg.place - -q| = |x.place - q| := by
    rw [place_neg h.isNumber, ← abs_neg]
    congr 1
    ring
  refine ⟨neg_ne_nan h.isNumber, fun y hy => ?_, fun y hy hne htie => ?_⟩
  · rw [hx, hdist hy]
    exact h.le _ (neg_ne_nan hy)
  · rw [hx, hdist hy] at htie
    rw [isEven_neg]
    refine h.even _ (neg_ne_nan hy) (fun he => hne ?_) htie
    rw [place_neg hy] at he
    rw [place_neg h.isNumber, ← he, neg_neg]

theorem two_pow_mul_zpow (n : Nat) (e : Int) : (2 : ℚ) ^ n * 2 ^ e = 2 ^ (e + n) := by
  rw [zpow_add₀ two_ne_zero, zpow_natCast, mul_comm]

theorem mul_zpow_le {m k : Nat} (hm : m ≤ 2 ^ k) {e f : Int} (hef : e + k ≤ f) : (m : ℚ) * 2 ^ e ≤ 2 ^ f :=
  calc (m : ℚ) * 2 ^ e ≤ 2 ^ k * 2 ^ e := by
        gcongr
        exact_mod_cast hm
    _ = 2 ^ (e + k) := two_pow_mul_zpow k e
    _ ≤ 2 ^ f := zpow_le_zpow_right₀ one_le_two hef

theorem place_le {x : Binary64} (h : x ≠ nan) : x.place ≤ limit := by
  have hsign {q : ℚ} (h0 : 0 ≤ q) (h1 : q ≤ limit) (negative : Bool) : withSign negative q ≤ limit := by
    cases negative
    · exact h1
    · exact (neg_nonpos.mpr h0).trans (h0.trans h1)
  cases x with
  | finite negative m e hc =>
    obtain ⟨hm, -, he⟩ := canonical_bounds hc
    rw [place_finite]
    exact hsign (by positivity) (mul_zpow_le hm.le (by omega)) negative
  | infinity negative => exact hsign (zpow_nonneg zero_le_two _) le_rfl negative
  | nan => exact absurd rfl h

/-- A number is on the grid, or below the binade that the grid is made for. -/
theorem place_grid {x : Binary64} (h : x ≠ nan) {e : Int} (hlow : -1074 ≤ e) (hhigh : e ≤ 1024) :
    (∃ k : Int, x.place = k * 2 ^ e) ∨ (-1074 < e ∧ x.place < 2 ^ 52 * 2 ^ e) := by
  have hgrid {m : Nat} {f : Int} (hef : e ≤ f) (negative : Bool) :
      ∃ k : Int, withSign negative (m * 2 ^ f) = k * 2 ^ e := by
    obtain ⟨n, rfl⟩ := Int.le.dest hef
    cases negative
    · refine ⟨m * 2 ^ n, ?_⟩
      rw [withSign, zpow_add₀ two_ne_zero]
      push_cast
      simp
      ring
    · refine ⟨-(m * 2 ^ n), ?_⟩
      rw [withSign, zpow_add₀ two_ne_zero]
      push_cast
      simp
      ring
  cases x with
  | finite negative m f hc =>
    obtain ⟨hm, hf, -⟩ := canonical_bounds hc
    rw [place_finite]
    by_cases hef : e ≤ f
    · exact .inl (hgrid hef negative)
    · refine .inr ⟨by omega, ?_⟩
      have hmag : (m : ℚ) * 2 ^ f < 2 ^ 52 * 2 ^ e :=
        calc (m : ℚ) * 2 ^ f < 2 ^ 53 * 2 ^ f := by
              gcongr
              exact_mod_cast hm
          _ = 2 ^ 52 * 2 ^ (f + 1) := by
              rw [zpow_add₀ two_ne_zero, zpow_one]
              ring
          _ ≤ 2 ^ 52 * 2 ^ e := mul_le_mul_of_nonneg_left (zpow_le_zpow_right₀ one_le_two (by omega)) (by positivity)
      cases negative
      · exact hmag
      · exact (neg_nonpos.mpr (by positivity)).trans_lt (by positivity)
  | infinity negative =>
    obtain ⟨k, hk⟩ := hgrid (m := 1) hhigh negative
    refine .inl ⟨k, ?_⟩
    rw [place_infinity, ← hk, limit]
    simp
  | nan => exact absurd rfl h

/-! ## The rounded quotient -/

/-- The rounded quotient is the nearest integer. If another one is as near, it is even. -/
theorem roundQuotient_cases (num : Nat) {den : Nat} (hd : 0 < den) (k : Int) :
    |(roundQuotient num den : Int) * den - num| < |k * den - num| ∨ k = roundQuotient num den ∨
      (|(roundQuotient num den : Int) * den - num| ≤ |k * den - num| ∧ roundQuotient num den % 2 = 0) := by
  have hnum : (num : Int) = (num / den : Nat) * den + (num % den : Nat) := by
    exact_mod_cast (Nat.div_add_mod' num den).symm
  have hmod : (num % den : Nat) < den := Nat.mod_lt num hd
  have hbelow {j l : Int} (h : j ≤ l) : j * den ≤ l * den := Int.mul_le_mul_of_nonneg_right h (by omega)
  generalize hq : (num / den : Nat) = q at hnum
  generalize hr : (num % den : Nat) = r at hnum hmod
  have hnext : ((q : Int) + 1) * den = q * den + den := by ring
  have hlast : ((q : Int) - 1) * den = q * den - den := by ring
  have hafter : ((q : Int) + 2) * den = q * den + 2 * den := by ring
  unfold roundQuotient
  rw [hq, hr]
  simp only [Int.abs_eq_natAbs]
  split
  · rename_i hhalf
    rw [Nat.compare_eq_lt] at hhalf
    rcases lt_trichotomy k q with hk | rfl | hk
    · have := hbelow (show k ≤ q - 1 by omega)
      left
      omega
    · exact .inr (.inl rfl)
    · have := hbelow (show (q : Int) + 1 ≤ k by omega)
      left
      omega
  · rename_i hhalf
    rw [Nat.compare_eq_eq] at hhalf
    refine .inr (.inr ⟨?_, by omega⟩)
    have hk : k * den ≤ q * den ∨ (q : Int) * den + den ≤ k * den := by
      rcases Int.lt_or_le q k with hk | hk
      · exact .inr (hnext ▸ hbelow hk)
      · exact .inl (hbelow hk)
    rcases Nat.mod_two_eq_zero_or_one q with hbit | hbit
    · rw [hbit, Nat.add_zero]
      omega
    · simp only [hbit, Nat.cast_add, Nat.cast_one, hnext]
      omega
  · rename_i hhalf
    rw [Nat.compare_eq_gt] at hhalf
    simp only [Nat.cast_add, Nat.cast_one, hnext]
    rcases lt_trichotomy k (q + 1) with hk | rfl | hk
    · have := hbelow (show k ≤ q by omega)
      left
      omega
    · exact .inr (.inl rfl)
    · have := hbelow (show (q : Int) + 2 ≤ k by omega)
      left
      omega

/-! ## Ratios -/

/-- A ratio has at most 53 bits on its grid, and 53 unless the grid is the finest. -/
theorem gridExponent_bounds (num : Nat) {den : Nat} (hd : 0 < den) : -1074 ≤ gridExponent num den ∧
    (num / den : ℚ) < 2 ^ 53 * 2 ^ gridExponent num den ∧
    (-1074 < gridExponent num den → 2 ^ 52 * 2 ^ gridExponent num den ≤ (num / den : ℚ)) := by
  unfold gridExponent
  by_cases hn : num = 0
  · rw [if_pos hn, hn, Nat.cast_zero, zero_div]
    exact ⟨le_rfl, by positivity, fun h => absurd h (lt_irrefl _)⟩
  · have hpos : (0 : ℚ) < num / den := div_pos (by exact_mod_cast Nat.pos_of_ne_zero hn) (by exact_mod_cast hd)
    rw [if_neg hn, floorLog2_eq (Nat.pos_of_ne_zero hn) hd]
    refine ⟨by omega, ?_, fun hgrid => ?_⟩
    · rw [two_pow_mul_zpow, lt_zpow_iff_log hpos]
      omega
    · rw [two_pow_mul_zpow, zpow_le_iff hpos]
      omega

/-- The distance of a point of the grid from a ratio. -/
theorem dist_grid (num : Nat) {den : Nat} (hd : 0 < den) (e k : Int) :
    |(k : ℚ) * 2 ^ e - num / den| = (|k * (den * Nat.pow 2 e.toNat : Nat) - (num * Nat.pow 2 (-e).toNat : Nat)| : Int) *
      (2 ^ e / (den * Nat.pow 2 e.toNat : Nat)) := by
  have hden : (den : ℚ) ≠ 0 := by exact_mod_cast hd.ne'
  have hfactor : (0 : ℚ) ≤ 2 ^ e / (den * Nat.pow 2 e.toNat : Nat) := by positivity
  have hscaled : (k : ℚ) * 2 ^ e - num / den =
      (k * (den * Nat.pow 2 e.toNat : Nat) - (num * Nat.pow 2 (-e).toNat : Nat) : Int) *
        (2 ^ e / (den * Nat.pow 2 e.toNat : Nat)) := by
    rw [two_zpow e]
    push_cast
    field_simp
  rw [hscaled, abs_mul, abs_of_nonneg hfactor, Int.cast_abs]

/-- The significand of a ratio on a grid. -/
def onGrid (num den : Nat) (e : Int) : Nat := roundQuotient (num * Nat.pow 2 (-e).toNat) (den * Nat.pow 2 e.toNat)

theorem ofRatio_eq (negative : Bool) (num den : Nat) : ofRatio negative num den =
    if onGrid num den (gridExponent num den) = Nat.pow 2 53 then pack negative (Nat.pow 2 52) (gridExponent num den + 1)
    else pack negative (onGrid num den (gridExponent num den)) (gridExponent num den) := rfl

/-- A ratio is rounded to the nearest point of a grid. -/
theorem onGrid_cases (num : Nat) {den : Nat} (hd : 0 < den) (e k : Int) :
    |(onGrid num den e : ℚ) * 2 ^ e - num / den| < |(k : ℚ) * 2 ^ e - num / den| ∨ k = onGrid num den e ∨
      (|(onGrid num den e : ℚ) * 2 ^ e - num / den| ≤ |(k : ℚ) * 2 ^ e - num / den| ∧ onGrid num den e % 2 = 0) := by
  have hD : 0 < den * Nat.pow 2 e.toNat := Nat.mul_pos hd (Nat.pow_pos (by decide))
  have hfactor : (0 : ℚ) < 2 ^ e / (den * Nat.pow 2 e.toNat : Nat) := div_pos (by positivity) (by exact_mod_cast hD)
  have hm := dist_grid num hd e (onGrid num den e)
  rw [Int.cast_natCast] at hm
  rw [hm, dist_grid num hd e k, mul_lt_mul_iff_left₀ hfactor, mul_le_mul_iff_left₀ hfactor, Int.cast_lt, Int.cast_le]
  exact roundQuotient_cases _ hD k

theorem onGrid_le (num : Nat) {den : Nat} (hd : 0 < den) (e k : Int) :
    |(onGrid num den e : ℚ) * 2 ^ e - num / den| ≤ |(k : ℚ) * 2 ^ e - num / den| := by
  rcases onGrid_cases num hd e k with h | rfl | h
  · exact h.le
  · rw [Int.cast_natCast]
  · exact h.1

/-- Rounding stays within the bits of the grid. -/
theorem onGrid_bounds (num : Nat) {den : Nat} (hd : 0 < den) : onGrid num den (gridExponent num den) ≤ 2 ^ 53 ∧
    (-1074 < gridExponent num den → 2 ^ 52 ≤ onGrid num den (gridExponent num den)) := by
  obtain ⟨-, hlt, hle⟩ := gridExponent_bounds num hd
  generalize gridExponent num den = e at hlt hle
  have hpos : (0 : ℚ) < 2 ^ e := by positivity
  constructor
  · have h := onGrid_le num hd e (2 ^ 53)
    rw [Int.cast_pow, Int.cast_ofNat, abs_of_nonneg (sub_nonneg.mpr hlt.le)] at h
    have hle := (le_abs_self _).trans h
    rw [sub_le_sub_iff_right, mul_le_mul_iff_left₀ hpos] at hle
    exact_mod_cast hle
  · intro hgrid
    have h := onGrid_le num hd e (2 ^ 52)
    rw [Int.cast_pow, Int.cast_ofNat, abs_of_nonpos (sub_nonpos.mpr (hle hgrid))] at h
    have hle := (neg_le_abs _).trans h
    rw [neg_le_neg_iff, sub_le_sub_iff_right, mul_le_mul_iff_left₀ hpos] at hle
    exact_mod_cast hle

/-! ## The nearest number -/

/-- Beyond the limit the infinity is nearest. -/
theorem nearest_infinity {q : ℚ} (h : limit ≤ q) : Nearest q (infinity false) := by
  have hlimit : (infinity false).place = limit := rfl
  refine ⟨by simp, fun y hy => ?_, fun _ _ _ _ => rfl⟩
  have hy := place_le hy
  rw [hlimit, abs_of_nonpos (sub_nonpos.mpr h), abs_of_nonpos (sub_nonpos.mpr (hy.trans h)), neg_le_neg_iff,
    sub_le_sub_iff_right]
  exact hy

/-- So far below the finest grid zero is nearest. -/
theorem nearest_zero {q : ℚ} (hq : 0 ≤ q) (h : 2 * q ≤ 2 ^ (-1074 : Int)) : Nearest q (zero false) := by
  have hzero : (zero false).place = 0 := (place_finite false _).trans (by simp [withSign])
  refine ⟨by simp [zero], fun y hy => ?_, fun _ _ _ _ => rfl⟩
  rw [hzero, zero_sub, abs_neg, abs_of_nonneg hq]
  rcases place_grid hy (e := -1074) le_rfl (by decide) with ⟨k, hk⟩ | ⟨hlt, -⟩
  · rw [hk]
    rcases Int.lt_or_le 0 k with hpos | hneg
    · have hle : (2 : ℚ) ^ (-1074 : Int) ≤ k * 2 ^ (-1074 : Int) :=
        le_mul_of_one_le_left (by positivity) (by exact_mod_cast hpos)
      exact le_trans (by linarith) (le_abs_self _)
    · have hle : (k : ℚ) * 2 ^ (-1074 : Int) ≤ 0 :=
        mul_nonpos_of_nonpos_of_nonneg (by exact_mod_cast hneg) (by positivity)
      exact le_trans (by linarith) (neg_le_abs _)
  · exact absurd hlt (lt_irrefl _)

theorem pack_of_canonical (negative : Bool) {m : Nat} {e : Int} (h : Canonical m e) :
    pack negative m e = finite negative m e h := dif_pos h

theorem pack_of_gt (negative : Bool) (m : Nat) {e : Int} (h : 971 < e) : pack negative m e = infinity negative := by
  refine dif_neg ?_
  rintro (⟨-, he⟩ | ⟨-, -, -, he⟩)
  · omega
  · omega

/-- Within the range a ratio is rounded to the number in the place of its point on the grid, and one as even. -/
theorem ofRatio_onGrid (num : Nat) {den : Nat} (hd : 0 < den) (hrange : gridExponent num den ≤ 971) :
    ofRatio false num den ≠ nan ∧
      (ofRatio false num den).place = onGrid num den (gridExponent num den) * 2 ^ gridExponent num den ∧
      (onGrid num den (gridExponent num den) % 2 = 0 → (ofRatio false num den).isEven = true) := by
  obtain ⟨hm, hm'⟩ := onGrid_bounds num hd
  have hlow := (gridExponent_bounds num hd).1
  rw [ofRatio_eq]
  generalize onGrid num den (gridExponent num den) = m at hm hm'
  generalize gridExponent num den = e at hlow hrange hm'
  split
  · -- All bits of the significand turn over, and one more is needed for the exponent.
    rename_i hfull
    have hplace : (m : ℚ) * 2 ^ e = 2 ^ (e + 53) := by
      rw [hfull, Nat.pow_eq, Nat.cast_pow, Nat.cast_ofNat, two_pow_mul_zpow]
      rfl
    rw [hplace]
    by_cases hlast : e + 1 ≤ 971
    · have hcanonical : Canonical (Nat.pow 2 52) (e + 1) := .inr ⟨le_rfl, by decide, by omega, hlast⟩
      rw [pack_of_canonical false hcanonical]
      refine ⟨by simp, ?_, fun _ => rfl⟩
      rw [place_finite, withSign, if_neg Bool.false_ne_true, Nat.pow_eq, Nat.cast_pow, Nat.cast_ofNat, two_pow_mul_zpow]
      congr 1
      omega
    · obtain rfl : e = 971 := by omega
      rw [pack_of_gt false _ (by decide)]
      exact ⟨by simp, rfl, fun _ => rfl⟩
  · rename_i hfull
    have hcanonical : Canonical m e := by
      rcases Int.lt_or_eq_of_le hlow with hlow | rfl
      · exact .inr ⟨hm' hlow, lt_of_le_of_ne hm hfull, by omega, hrange⟩
      · by_cases hsmall : m < Nat.pow 2 52
        · exact .inl ⟨hsmall, rfl⟩
        · exact .inr ⟨not_lt.mp hsmall, lt_of_le_of_ne hm hfull, le_rfl, hrange⟩
    rw [pack_of_canonical false hcanonical]
    exact ⟨by simp, place_finite false hcanonical, fun heven => beq_iff_eq.mpr heven⟩

/-- A ratio is rounded to the nearest number. -/
theorem nearest_ofRatio_false (num : Nat) {den : Nat} (hd : 0 < den) : Nearest (num / den) (ofRatio false num den) := by
  obtain ⟨hlow, hlt, hle⟩ := gridExponent_bounds num hd
  by_cases hrange : gridExponent num den ≤ 971
  · obtain ⟨hnan, hplace, heven⟩ := ofRatio_onGrid num hd hrange
    have hcases := onGrid_cases num hd (gridExponent num den)
    have hnear := onGrid_le num hd (gridExponent num den)
    generalize onGrid num den (gridExponent num den) = m at hplace heven hcases hnear
    generalize gridExponent num den = e at hlow hle hrange hplace hcases hnear
    -- Below the binade nothing is as near as the lower end of the binade, which is on the grid.
    have hfar {q : ℚ} (hgrid : -1074 < e) (hq : q < 2 ^ 52 * 2 ^ e) : |(m : ℚ) * 2 ^ e - num / den| < |q - num / den| := by
      have hend := hnear (2 ^ 52)
      rw [Int.cast_pow, Int.cast_ofNat, abs_of_nonpos (sub_nonpos.mpr (hle hgrid))] at hend
      have hbelow := neg_le_abs (q - num / den)
      linarith
    refine ⟨hnan, fun y hy => ?_, fun y hy hne htie => ?_⟩
    · rw [hplace]
      rcases place_grid hy hlow (by omega) with ⟨k, hk⟩ | ⟨hgrid, hbelow⟩
      · rw [hk]
        exact hnear k
      · exact (hfar hgrid hbelow).le
    · rw [hplace] at hne htie
      rcases place_grid hy hlow (by omega) with ⟨k, hk⟩ | ⟨hgrid, hbelow⟩
      · rw [hk] at hne htie
        rcases hcases k with h | rfl | h
        · exact absurd htie h.ne'
        · exact absurd (by rw [Int.cast_natCast]) hne
        · exact heven h.2
      · exact absurd htie (hfar hgrid hbelow).ne'
  · have hinfinity : ofRatio false num den = infinity false := by
      rw [ofRatio_eq]
      split
      · exact pack_of_gt false _ (by omega)
      · exact pack_of_gt false _ (by omega)
    have hlimit : limit ≤ 2 ^ 52 * 2 ^ gridExponent num den := by
      rw [two_pow_mul_zpow]
      exact zpow_le_zpow_right₀ one_le_two (by push_cast; omega)
    rw [hinfinity]
    exact nearest_infinity (hlimit.trans (hle (by omega)))

theorem ofRatio_true (num den : Nat) : ofRatio true num den = (ofRatio false num den).neg := by
  unfold ofRatio pack
  dsimp only
  split <;> split <;> rfl

/-! ## Decimals -/

theorem ofDecimal_true (digits : Nat) (exponent : Int) :
    ofDecimal true digits exponent = (ofDecimal false digits exponent).neg := by
  unfold ofDecimal
  dsimp only
  split
  · rfl
  · split
    · rfl
    · split
      · rfl
      · exact ofRatio_true ..

/-- The magnitude of a decimal, by the place of its first digit. -/
theorem decimal_bounds {digits : Nat} (h : digits ≠ 0) (exponent : Int) :
    (10 : ℚ) ^ (exponent + (Nat.toDigits 10 digits).length - 1) ≤ digits * 10 ^ exponent ∧
      (digits : ℚ) * 10 ^ exponent < 10 ^ (exponent + (Nat.toDigits 10 digits).length) := by
  have hpos : 0 < (Nat.toDigits 10 digits).length := Nat.length_toDigits_pos
  have hhigh : digits < 10 ^ (Nat.toDigits 10 digits).length := (Nat.length_toDigits_le_iff (by decide) hpos).mp le_rfl
  obtain ⟨l, hl⟩ := Nat.exists_eq_succ_of_ne_zero hpos.ne'
  have hlow : 10 ^ l ≤ digits := by
    by_contra hlt
    rcases Nat.eq_zero_or_pos l with rfl | hl'
    · omega
    · have := length_toDigits_le hl' (Nat.lt_of_not_le hlt)
      omega
  have hten (n : Nat) : (10 : ℚ) ^ (exponent + n) = (10 ^ n : Nat) * 10 ^ exponent := by
    rw [zpow_add₀ (by decide), zpow_natCast, mul_comm, Nat.cast_pow, Nat.cast_ofNat]
  have hplace : exponent + (Nat.toDigits 10 digits).length - 1 = exponent + l := by omega
  have hunit : (0 : ℚ) < 10 ^ exponent := by positivity
  rw [hplace, hten, hten, mul_le_mul_iff_left₀ hunit, mul_lt_mul_iff_left₀ hunit]
  exact ⟨by exact_mod_cast hlow, by exact_mod_cast hhigh⟩

/-- What is out of the reach of decimals is beyond the limit. -/
theorem limit_le_ten : limit ≤ 10 ^ (400 : Int) := by
  have hnat : ((2 ^ 1024 : Nat) : ℚ) ≤ ((10 ^ 400 : Nat) : ℚ) := Nat.cast_le.mpr (by decide +kernel)
  rw [Nat.cast_pow, Nat.cast_pow, Nat.cast_ofNat, Nat.cast_ofNat] at hnat
  rwa [limit, zpow_ofNat, zpow_ofNat]

/-- On the other side it is no more than half of the finest grid. -/
theorem ten_le_grid : 2 * (10 : ℚ) ^ (-401 : Int) ≤ 2 ^ (-1074 : Int) := by
  have hnat : ((2 ^ 1075 : Nat) : ℚ) ≤ ((10 ^ 401 : Nat) : ℚ) := Nat.cast_le.mpr (by decide +kernel)
  rw [Nat.cast_pow, Nat.cast_pow, Nat.cast_ofNat, Nat.cast_ofNat] at hnat
  have hinv : (10 : ℚ) ^ (-401 : Int) ≤ 2 ^ (-1075 : Int) := by
    rw [zpow_neg, zpow_neg, zpow_ofNat, zpow_ofNat]
    exact inv_anti₀ (by positivity) hnat
  calc 2 * (10 : ℚ) ^ (-401 : Int) ≤ 2 * 2 ^ (-1075 : Int) := by gcongr
    _ = 2 ^ (-1074 : Int) := by
        rw [← zpow_one_add₀ two_ne_zero]
        rfl

/-- A decimal is rounded to the nearest number, also where its power of ten alone decides. -/
theorem nearest_ofDecimal (negative : Bool) (digits : Nat) (exponent : Int) :
    Nearest (withSign negative (digits * 10 ^ exponent)) (ofDecimal negative digits exponent) := by
  have hpositive : Nearest (digits * 10 ^ exponent) (ofDecimal false digits exponent) := by
    unfold ofDecimal
    dsimp only
    split
    · rename_i hzero
      rw [hzero, Nat.cast_zero, zero_mul]
      exact nearest_zero le_rfl (by rw [mul_zero]; positivity)
    · rename_i hdigits
      obtain ⟨hlow, hhigh⟩ := decimal_bounds hdigits exponent
      split
      · rename_i hgreat
        refine nearest_infinity (limit_le_ten.trans (le_trans ?_ hlow))
        exact zpow_le_zpow_right₀ (by norm_num) (by rw [decimalReach] at hgreat; omega)
      · split
        · rename_i hsmall
          have hten : (digits : ℚ) * 10 ^ exponent ≤ 10 ^ (-401 : Int) :=
            hhigh.le.trans (zpow_le_zpow_right₀ (by norm_num) (by rw [decimalReach] at hsmall; omega))
          exact nearest_zero (by positivity) (le_trans (by linarith) ten_le_grid)
        · have hratio : (digits : ℚ) * 10 ^ exponent =
              ((digits * Nat.pow 10 exponent.toNat : Nat) : ℚ) / (Nat.pow 10 (-exponent).toNat : Nat) := by
            rw [Nat.cast_mul, mul_div_assoc, ← natCast_zpow, Nat.cast_ofNat]
          rw [hratio]
          exact nearest_ofRatio_false _ (Nat.pow_pos (by decide))
  cases negative
  · exact hpositive
  · rw [ofDecimal_true]
    exact hpositive.neg

end JsonTables.Binary64
