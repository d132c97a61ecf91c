/-
  JsonTables.Proofs.Binary64.Decimal — decimals that denote one number read as one.

  The shortest decimal of a number is either found among those that read back, or it is the exact one,
  which reads back since its ratio is that of the number. Zeros that go at the end count in the exponent.

  Proved:
  - `ofDecimal_mul_pow`: digits with zeros behind them.
  - `ofDecimal_exact`: the exact decimal reads as its number.
  - `shortest?_readsBack`: so does the shortest.
  - `ofDecimal_of_abs`: a decimal of the magnitude, with the sign of the number.
-/

import JsonTables.Binary64.Arithmetic
import JsonTables.Binary64.Shortest
import JsonTables.Proofs.Binary64.Rounding

namespace JsonTables.Binary64

/-! ## Zeros at the end -/

theorem length_toDigits_mul_ten {n : Nat} (hn : 0 < n) :
    (Nat.toDigits 10 (10 * n)).length = (Nat.toDigits 10 n).length + 1 := by
  have h := Nat.toDigits_append_toDigits (b := 10) (by decide) hn (show 0 < 10 by decide)
  rw [Nat.add_zero, Nat.toDigits_zero] at h
  rw [← h]
  simp

theorem ofDecimal_mul_ten (negative : Bool) (n : Nat) (e : Int) :
    ofDecimal negative (10 * n) e = ofDecimal negative n (e + 1) := by
  rcases Nat.eq_zero_or_pos n with rfl | hn
  · rfl
  · have hne : 10 * n ≠ 0 := by omega
    have hplaces : e + ((Nat.toDigits 10 (10 * n)).length : Int) = e + 1 + ((Nat.toDigits 10 n).length : Int) := by
      rw [length_toDigits_mul_ten hn]
      push_cast
      omega
    have hratio : ofRatio negative (10 * n * Nat.pow 10 e.toNat) (Nat.pow 10 (-e).toNat) =
        ofRatio negative (n * Nat.pow 10 (e + 1).toNat) (Nat.pow 10 (-(e + 1)).toNat) := by
      rcases lt_or_ge e 0 with h | h
      · obtain ⟨k, hk⟩ := Int.eq_ofNat_of_zero_le (show 0 ≤ -(e + 1) by omega)
        have h1 : (-e).toNat = k + 1 := by omega
        have h2 : e.toNat = 0 := by omega
        have h3 : (e + 1).toNat = 0 := by omega
        have h4 : (-(e + 1)).toNat = k := by omega
        have hmul := @ofRatio_mul negative 10 n (Nat.pow 10 k) (by decide) (Nat.pow_pos (by decide))
        rw [h1, h2, h3, h4]
        simpa [Nat.pow_succ, Nat.mul_comm] using hmul
      · obtain ⟨k, rfl⟩ := Int.eq_ofNat_of_zero_le h
        have h1 : (-(k : Int)).toNat = 0 := by omega
        have h2 : (-((k : Int) + 1)).toNat = 0 := by omega
        have h3 : ((k : Int) + 1).toNat = k + 1 := by omega
        have hnum : 10 * n * Nat.pow 10 k = n * Nat.pow 10 (k + 1) := by
          rw [Nat.pow_eq, Nat.pow_eq, Nat.pow_succ]
          ring
        rw [h1, h2, h3, Int.toNat_natCast, hnum]
    simp only [ofDecimal, if_neg hne, if_neg hn.ne', hplaces, hratio]

theorem ofDecimal_mul_pow (negative : Bool) (n k : Nat) (e : Int) :
    ofDecimal negative (n * 10 ^ k) e = ofDecimal negative n (e + k) := by
  induction k generalizing e with
  | zero => simp
  | succ k ih =>
    rw [Nat.pow_succ, ← Nat.mul_assoc, Nat.mul_comm _ 10, ofDecimal_mul_ten, ih]
    push_cast
    congr 1
    omega

theorem ofDecimal_trimZeros (negative : Bool) (fuel : Nat) (d : Decimal) :
    ofDecimal negative (d.trimZeros fuel).digits (d.trimZeros fuel).exponent =
      ofDecimal negative d.digits d.exponent := by
  induction fuel generalizing d with
  | zero => rfl
  | succ fuel ih =>
    unfold Decimal.trimZeros
    split
    · rename_i h
      rw [ih, ← ofDecimal_mul_ten, Nat.mul_div_cancel' (Nat.dvd_of_mod_eq_zero h.2)]
    · rfl

/-! ## The exact decimal -/

theorem length_toDigits_le {n k : Nat} (hk : 0 < k) (h : n < 10 ^ k) : (Nat.toDigits 10 n).length ≤ k :=
  (Nat.length_toDigits_le_iff (by decide) hk).mpr h

theorem length_toDigits_gt {n k : Nat} (h : 10 ^ k ≤ n) : k < (Nat.toDigits 10 n).length := by
  rcases Nat.eq_zero_or_pos k with rfl | hk
  · exact Nat.length_toDigits_pos
  · have := (Nat.length_toDigits_le_iff (b := 10) (n := n) (by decide) hk).not
    omega

theorem length_toDigits_ten_pow (k : Nat) : (Nat.toDigits 10 (10 ^ k)).length = k + 1 :=
  Nat.le_antisymm (length_toDigits_le (Nat.succ_pos k) (Nat.pow_lt_pow_right (by decide) (Nat.lt_succ_self k)))
    (length_toDigits_gt (Nat.le_refl _))

theorem canonical_bounds {m : Nat} {e : Int} (h : Canonical m e) : m < 2 ^ 53 ∧ -1074 ≤ e ∧ e ≤ 971 := by
  rcases h with ⟨hm, rfl⟩ | ⟨_, hm, hlow, hhigh⟩
  · exact ⟨Nat.lt_trans hm (by decide), by decide, by decide⟩
  · exact ⟨hm, hlow, hhigh⟩

/-- Below one, so many powers of five are at least this power of ten. -/
theorem ten_pow_le_five_pow {n : Nat} (hlow : 400 ≤ n) (hhigh : n ≤ 1074) : 10 ^ (n - 400) ≤ 5 ^ n := by
  have htwo : 2 ^ (n - 400) ≤ 5 ^ 400 :=
    Nat.le_trans (Nat.pow_le_pow_right (by decide) (show n - 400 ≤ 674 by omega)) (by decide +kernel)
  calc 10 ^ (n - 400) = 2 ^ (n - 400) * 5 ^ (n - 400) := by rw [← Nat.mul_pow]
    _ ≤ 5 ^ 400 * 5 ^ (n - 400) := Nat.mul_le_mul_right _ htwo
    _ = 5 ^ n := by rw [← Nat.pow_add, Nat.add_sub_cancel' hlow]

/-- The digits of the exact decimal lie within the reach of decimals. -/
theorem places_exactDecimal {m : Nat} {e : Int} (h : Canonical m e) (hm : m ≠ 0) :
    -decimalReach ≤ (exactDecimal m e).exponent + (Nat.toDigits 10 (exactDecimal m e).digits).length ∧
      (exactDecimal m e).exponent + (Nat.toDigits 10 (exactDecimal m e).digits).length ≤ decimalReach := by
  obtain ⟨hlt, hlow, hhigh⟩ := canonical_bounds h
  have hone : 1 ≤ m := Nat.pos_of_ne_zero hm
  unfold decimalReach
  rcases Int.le_total 0 e with he | he
  · obtain ⟨n, rfl⟩ := Int.eq_ofNat_of_zero_le he
    have hd : exactDecimal m n = ⟨m * 2 ^ n, 0⟩ := by simp [exactDecimal]
    have hsmall : m * 2 ^ n < 10 ^ 400 :=
      calc m * 2 ^ n < 2 ^ 53 * 2 ^ n := Nat.mul_lt_mul_of_pos_right hlt (Nat.pow_pos (by decide))
        _ ≤ 2 ^ 53 * 2 ^ 971 := Nat.mul_le_mul_left _ (Nat.pow_le_pow_right (by decide) (by omega))
        _ ≤ 10 ^ 400 := by decide +kernel
    have hlen := length_toDigits_le (by decide) hsmall
    rw [hd]
    dsimp only
    omega
  · obtain ⟨n, hn⟩ := Int.eq_ofNat_of_zero_le (show 0 ≤ -e by omega)
    obtain rfl : e = -(n : Int) := by omega
    have hd : exactDecimal m (-(n : Int)) = ⟨m * 5 ^ n, -n⟩ := by
      simp [exactDecimal]
    have hsmall : m * 5 ^ n < 10 ^ (400 + n) :=
      calc m * 5 ^ n < 2 ^ 53 * 5 ^ n := Nat.mul_lt_mul_of_pos_right hlt (Nat.pow_pos (by decide))
        _ ≤ 10 ^ 400 * 10 ^ n := Nat.mul_le_mul (by decide +kernel) (Nat.pow_le_pow_left (by decide) n)
        _ = 10 ^ (400 + n) := by rw [Nat.pow_add]
    have hlen := length_toDigits_le (by omega) hsmall
    have hbig : n ≤ 400 + (Nat.toDigits 10 (m * 5 ^ n)).length := by
      by_cases h400 : n ≤ 400
      · omega
      · have hle : 10 ^ (n - 400) ≤ m * 5 ^ n :=
          calc 10 ^ (n - 400) ≤ 5 ^ n := ten_pow_le_five_pow (by omega) (by omega)
            _ ≤ m * 5 ^ n := Nat.le_mul_of_pos_left _ hone
        have := length_toDigits_gt hle
        omega
    rw [hd]
    dsimp only
    omega

theorem ofDecimal_exact (negative : Bool) {m : Nat} {e : Int} (h : Canonical m e) (hm : m ≠ 0) :
    ofDecimal negative (exactDecimal m e).digits (exactDecimal m e).exponent = finite negative m e h := by
  have hfive : 0 < Nat.pow 5 (-e).toNat := Nat.pow_pos (by decide)
  have htwo : 0 < Nat.pow 2 e.toNat := Nat.pow_pos (by decide)
  have hden : 0 < Nat.pow 2 (-e).toNat := Nat.pow_pos (by decide)
  have hdigits : (exactDecimal m e).digits ≠ 0 :=
    Nat.mul_ne_zero (Nat.mul_ne_zero hm htwo.ne') hfive.ne'
  obtain ⟨hlow, hhigh⟩ := places_exactDecimal h hm
  have hratio : ofRatio negative
      ((exactDecimal m e).digits * Nat.pow 10 (exactDecimal m e).exponent.toNat)
      (Nat.pow 10 (-(exactDecimal m e).exponent).toNat) = finite negative m e h := by
    have h1 : (min e 0).toNat = 0 := by omega
    have h2 : (-min e 0).toNat = (-e).toNat := by omega
    have hmul := @ofRatio_mul negative _ (m * Nat.pow 2 e.toNat) _ hfive hden
    rw [ofRatio_exact negative h] at hmul
    rw [← hmul, exactDecimal, h1, h2]
    congr 1
    · simp [Nat.mul_comm]
    · simp [← Nat.mul_pow]
  simp only [ofDecimal, if_neg hdigits, if_neg (Int.not_lt.mpr hhigh), if_neg (Int.not_lt.mpr hlow), hratio, gt_iff_lt]

/-- The shortest decimal of a finite number reads as the number. -/
theorem shortest?_readsBack (negative : Bool) {m : Nat} {e : Int} (h : Canonical m e) :
    ∃ d, (finite negative m e h).shortest? = some d ∧
      ofDecimal negative d.digits d.exponent = finite negative m e h := by
  by_cases hm : m = 0
  · subst hm
    obtain rfl : e = -1074 := by
      rcases h with ⟨_, he⟩ | ⟨hle, _⟩
      · exact he
      · exact absurd hle (by decide)
    exact ⟨⟨0, 0⟩, rfl, rfl⟩
  · simp only [shortest?, if_neg hm]
    refine ⟨_, rfl, ?_⟩
    rw [ofDecimal_trimZeros]
    generalize hfound : List.findSome? _ _ = found
    cases found with
    | none => exact ofDecimal_exact negative h hm
    | some d =>
      obtain ⟨i, _, hi⟩ := List.exists_of_findSome?_eq_some hfound
      have hreads := List.find?_some hi
      exact eq_of_beq hreads

/-! ## Signs -/

theorem ofRatio_abs (negative : Bool) (num den : Nat) : (ofRatio negative num den).abs = ofRatio false num den := by
  unfold ofRatio pack
  dsimp only
  split <;> split <;> rfl

theorem ofDecimal_abs (negative : Bool) (n : Nat) (e : Int) : (ofDecimal negative n e).abs = ofDecimal false n e := by
  unfold ofDecimal
  dsimp only
  split
  · rfl
  · split
    · rfl
    · split
      · rfl
      · exact ofRatio_abs ..

theorem isNegative_ofRatio (negative : Bool) (num den : Nat) : (ofRatio negative num den).isNegative = negative := by
  unfold ofRatio pack
  dsimp only
  split <;> split <;> rfl

theorem isNegative_ofDecimal (negative : Bool) (n : Nat) (e : Int) : (ofDecimal negative n e).isNegative = negative := by
  unfold ofDecimal
  dsimp only
  split
  · rfl
  · split
    · rfl
    · split
      · rfl
      · exact isNegative_ofRatio ..

theorem eq_of_abs {x y : Binary64} (hx : x ≠ nan) (habs : x.abs = y.abs) (hsign : x.isNegative = y.isNegative) :
    x = y := by
  cases x <;> cases y <;> simp_all [abs, isNegative]

/-- Digits that denote the magnitude of a number denote the number with its sign. -/
theorem ofDecimal_of_abs {x : Binary64} (hx : x ≠ nan) {n : Nat} {e : Int} (h : ofDecimal false n e = x.abs) :
    ofDecimal x.isNegative n e = x :=
  (eq_of_abs hx (h.symm.trans (ofDecimal_abs ..).symm) (isNegative_ofDecimal ..).symm).symm

end JsonTables.Binary64
