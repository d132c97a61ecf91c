/-
  JsonTables.Proofs.Binary64.Remainder — integers in the binary format, and what is left when they are divided.

  An integer is in the format just as it is if it has 53 bits with zeros behind them and is not too great; all
  others are rounded to such integers, since beyond 53 bits the grid is one of integers. The remainder of two of
  them is one again: it keeps the zeros that both have, and is no greater than either of them without these.

  Proved:
  - `integer?_ofInt_iff`: which integers are exact in the format.
  - `integer_or_infinite_ofInt`: the others become other integers or, out of range, infinities.
  - `integer?_rem`: the remainder of integers in the format is exact.
-/

import JsonTables.Binary64.Arithmetic
import JsonTables.Proofs.Binary64.Rounding

namespace JsonTables.Binary64

/-! ## Integers of 53 bits -/

theorem log2_lt_of_lt {n k : Nat} (hk : 0 < k) (h : n < 2 ^ k) : n.log2 < k := by
  by_cases h0 : n = 0
  · rw [h0]
    exact hk
  · exact (Nat.log2_lt h0).mpr h

theorem log2_mono {m n : Nat} (h : m ≤ n) : m.log2 ≤ n.log2 := by
  rw [Nat.log2_eq_log_two, Nat.log2_eq_log_two]
  exact Nat.log_mono_right h

/-- At most 53 bits with zeros behind them, in the range of the format. -/
structure Fits (n : Nat) : Prop where
  bits : ∃ m k, m < 2 ^ 53 ∧ n = m * 2 ^ k
  range : n.log2 < 1024

theorem fits_of_le {n : Nat} (h : n ≤ 2 ^ 53) : Fits n := by
  have hlog := log2_mono h
  rw [Nat.log2_two_pow] at hlog
  refine ⟨?_, by omega⟩
  rcases Nat.lt_or_eq_of_le h with h | rfl
  · exact ⟨n, 0, h, (Nat.mul_one n).symm⟩
  · exact ⟨1, 53, by decide, (Nat.one_mul _).symm⟩

/-- The remainder of what fits fits. -/
theorem Fits.mod {a b : Nat} (ha : Fits a) (hb : Fits b) (hne : b ≠ 0) : Fits (a % b) := by
  have hlt : a % b < b := Nat.mod_lt _ (Nat.pos_of_ne_zero hne)
  refine ⟨?_, Nat.lt_of_le_of_lt (log2_mono (Nat.le_of_lt hlt)) hb.range⟩
  obtain ⟨m, j, hm, rfl⟩ := ha.bits
  obtain ⟨n, k, hn, rfl⟩ := hb.bits
  rcases Nat.le_total k j with h | h
  · have hpos : 0 < n := Nat.pos_of_ne_zero fun hn => hne (by rw [hn, Nat.zero_mul])
    have hsplit : m * 2 ^ j = m * 2 ^ (j - k) * 2 ^ k := by
      rw [Nat.mul_assoc, ← Nat.pow_add, Nat.sub_add_cancel h]
    rw [hsplit, Nat.mul_mod_mul_right]
    exact ⟨_, k, Nat.lt_trans (Nat.mod_lt _ hpos) hn, rfl⟩
  · have hsplit : n * 2 ^ k = n * 2 ^ (k - j) * 2 ^ j := by
      rw [Nat.mul_assoc, ← Nat.pow_add, Nat.sub_add_cancel h]
    rw [hsplit, Nat.mul_mod_mul_right]
    exact ⟨_, j, Nat.lt_of_le_of_lt (Nat.mod_le _ _) hm, rfl⟩

/-- What fits has a canonical form. -/
theorem Fits.exists_canonical {n : Nat} (h : Fits n) :
    ∃ m e, Canonical m e ∧ m * Nat.pow 2 e.toNat = Nat.pow 2 (-e).toNat * n := by
  obtain ⟨⟨m, k, hm, hn⟩, hlog⟩ := h
  by_cases h0 : n = 0
  · exact ⟨0, -1074, .inl ⟨by decide, rfl⟩, by rw [h0, Nat.zero_mul, Nat.mul_zero]⟩
  have hlow : 2 ^ n.log2 ≤ n := Nat.log2_self_le h0
  have hhigh : n < 2 ^ (n.log2 + 1) := Nat.lt_log2_self
  generalize n.log2 = l at hlow hhigh hlog
  rcases Nat.le_total l 52 with hl | hl
  · -- Zeros are put behind it.
    obtain ⟨z, hz⟩ : ∃ z, l + z = 52 := ⟨52 - l, by omega⟩
    have hz1 : (-(z : Int)).toNat = 0 := by omega
    have hz2 : (-(-(z : Int))).toNat = z := by omega
    refine ⟨2 ^ z * n, -z, .inr ⟨?_, ?_, by omega, by omega⟩, by rw [hz1, hz2]; simp⟩
    · calc Nat.pow 2 52 = 2 ^ z * 2 ^ l := by rw [← Nat.pow_add, Nat.add_comm z l, hz]
        _ ≤ 2 ^ z * n := Nat.mul_le_mul_left _ hlow
    · calc 2 ^ z * n < 2 ^ z * 2 ^ (l + 1) := Nat.mul_lt_mul_of_pos_left hhigh (Nat.two_pow_pos z)
        _ = Nat.pow 2 53 := by rw [← Nat.pow_add, show z + (l + 1) = 53 by omega]
  · -- It ends in zeros, which are taken away.
    obtain ⟨z, hz⟩ : ∃ z, l = 52 + z := ⟨l - 52, by omega⟩
    have hk : z ≤ k := by
      by_contra hlt
      have hle : 53 + k ≤ l := by omega
      have habove : n < 2 ^ l :=
        calc n < 2 ^ 53 * 2 ^ k := hn ▸ Nat.mul_lt_mul_of_pos_right hm (Nat.two_pow_pos k)
          _ = 2 ^ (53 + k) := (Nat.pow_add 2 53 k).symm
          _ ≤ 2 ^ l := Nat.pow_le_pow_right (by decide) hle
      omega
    obtain ⟨c, hc⟩ : 2 ^ z ∣ n := hn ▸ Nat.dvd_mul_left_of_dvd (Nat.pow_dvd_pow 2 hk) m
    have hz1 : ((z : Int)).toNat = z := by omega
    have hz2 : (-(z : Int)).toNat = 0 := by omega
    refine ⟨c, z, .inr ⟨?_, ?_, by omega, by omega⟩, by rw [hz1, hz2, hc]; simp [Nat.mul_comm]⟩
    · have hle : 2 ^ z * 2 ^ 52 ≤ 2 ^ z * c := by
        rw [← Nat.pow_add, ← hc, Nat.add_comm z 52, ← hz]
        exact hlow
      exact Nat.le_of_mul_le_mul_left hle (Nat.two_pow_pos z)
    · have hlt : 2 ^ z * c < 2 ^ z * 2 ^ 53 := by
        rw [← Nat.pow_add, ← hc, show z + 53 = l + 1 by omega]
        exact hhigh
      exact Nat.lt_of_mul_lt_mul_left hlt

/-! ## Their values -/

/-- The integer of a sign and a magnitude. -/
def signed (negative : Bool) (n : Nat) : Int := if negative then -(n : Int) else n

theorem natAbs_signed (negative : Bool) (n : Nat) : (signed negative n).natAbs = n := by
  cases negative <;> simp [signed]

theorem signed_natAbs (k : Int) : signed (k < 0) k.natAbs = k := by
  unfold signed
  by_cases h : k < 0
  · rw [decide_eq_true h, if_pos rfl]
    omega
  · rw [decide_eq_false h, if_neg Bool.false_ne_true]
    omega

theorem value?_finite (negative : Bool) {m : Nat} {e : Int} (h : Canonical m e) :
    (finite negative m e h).value? =
      some (mkRat (signed negative (m * Nat.pow 2 e.toNat)) (Nat.pow 2 (-e).toNat)) := rfl

theorem integer?_eq_some_iff {x : Binary64} {k : Int} : x.integer? = some k ↔ x.value? = some (k : ℚ) := by
  unfold integer?
  cases x.value? with
  | none => simp
  | some q =>
    rw [Option.bind_some, Option.some.injEq]
    constructor
    · intro h
      split at h
      · rename_i hden
        rw [← Option.some.inj h, (Rat.den_eq_one_iff q).mp hden]
      · cases h
    · intro h
      rw [h, if_pos (Rat.den_intCast k), Rat.num_intCast]

theorem integer?_of_isInfinite {x : Binary64} (h : x.isInfinite = true) : x.integer? = none := by
  cases x with
  | infinity negative => rfl
  | _ => cases h

theorem isInfinite_of_integer? {x : Binary64} {k : Int} (h : x.integer? = some k) : x.isInfinite = false := by
  cases x with
  | infinity negative => cases h
  | _ => rfl

/-- What fits is exact. -/
theorem Fits.value?_ofRatio {n : Nat} (h : Fits n) (negative : Bool) :
    (ofRatio negative n 1).value? = some (signed negative n : ℚ) := by
  obtain ⟨m, e, hc, heq⟩ := h.exists_canonical
  have hpos : 0 < Nat.pow 2 (-e).toNat := Nat.pow_pos (by decide)
  have hexact : ofRatio negative n 1 = finite negative m e hc := by
    rw [← ofRatio_mul negative hpos Nat.one_pos, ← heq, Nat.mul_one, ofRatio_exact]
  have hscaled : signed negative (Nat.pow 2 (-e).toNat * n) = (Nat.pow 2 (-e).toNat : Nat) * signed negative n := by
    cases negative <;> simp [signed]
  rw [hexact, value?_finite, heq, hscaled]
  have hcancel := @Rat.mkRat_mul_left (signed negative n) 1 _ hpos.ne'
  rw [Nat.mul_one, Rat.mkRat_one] at hcancel
  rw [hcancel]

/-- A number that is an integer fits. -/
theorem fits_of_value {x : Binary64} {k : Int} (h : x.value? = some (k : ℚ)) : Fits k.natAbs := by
  cases x with
  | nan => cases h
  | infinity negative => cases h
  | finite negative m e hc =>
    have hpos : 0 < Nat.pow 2 (-e).toNat := Nat.pow_pos (by decide)
    rw [value?_finite, Option.some.injEq, ← Rat.mkRat_one, Rat.mkRat_eq_iff hpos.ne' Nat.one_ne_zero] at h
    have habs := congrArg Int.natAbs h
    rw [Int.natAbs_mul, Int.natAbs_mul, natAbs_signed, Int.natAbs_natCast, Int.natAbs_natCast, Nat.mul_one] at habs
    have hm : m < 2 ^ 53 := by
      rcases hc with ⟨hlt, -⟩ | ⟨-, hlt, -⟩
      · exact Nat.lt_trans hlt (by decide)
      · exact hlt
    have he : e ≤ 971 := by
      rcases hc with ⟨-, he⟩ | ⟨-, -, -, he⟩ <;> omega
    rcases Int.le_total 0 e with hsign | hsign
    · have hzero : (-e).toNat = 0 := by omega
      have hk : k.natAbs = m * 2 ^ e.toNat := by
        rw [hzero] at habs
        simpa using habs.symm
      have hbound : k.natAbs < 2 ^ (53 + e.toNat) := by
        rw [hk, Nat.pow_add]
        exact Nat.mul_lt_mul_of_pos_right hm (Nat.two_pow_pos _)
      have hlog := log2_lt_of_lt (by omega) hbound
      exact ⟨⟨m, e.toNat, hm, hk⟩, by omega⟩
    · have hzero : e.toNat = 0 := by omega
      have hk : k.natAbs ≤ m := by
        rw [hzero] at habs
        have hle := Nat.le_mul_of_pos_right k.natAbs hpos
        rw [← habs] at hle
        simpa using hle
      exact fits_of_le (by omega)

/-- An integer is exact in the format if it fits. -/
theorem integer?_ofInt_iff {k : Int} : (ofInt k).integer? = some k ↔ Fits k.natAbs := by
  rw [integer?_eq_some_iff]
  constructor
  · exact fits_of_value
  · intro h
    rw [ofInt, h.value?_ofRatio, signed_natAbs]

/-! ## Rounding to integers -/

theorem integer?_pack (negative : Bool) (m : Nat) {e : Int} (he : 0 ≤ e) :
    (pack negative m e).isInfinite = true ∨ ∃ k, (pack negative m e).integer? = some k := by
  unfold pack
  split
  · rename_i hc
    right
    have hzero : (-e).toNat = 0 := by omega
    refine ⟨signed negative (m * Nat.pow 2 e.toNat), integer?_eq_some_iff.mpr ?_⟩
    rw [value?_finite, hzero]
    exact congrArg some (Rat.mkRat_one _)
  · exact .inl rfl

/-- An integer becomes an integer or, beyond the range of the format, an infinity. -/
theorem integer_or_infinite_ofInt (k : Int) :
    (ofInt k).isInfinite = true ∨ ∃ m, (ofInt k).integer? = some m := by
  by_cases hsmall : k.natAbs < 2 ^ 53
  · exact .inr ⟨k, integer?_ofInt_iff.mpr (fits_of_le (Nat.le_of_lt hsmall))⟩
  · have hpos : 0 < k.natAbs := by omega
    have hgrid : 0 ≤ gridExponent k.natAbs 1 := by
      have hq : (0 : ℚ) < k.natAbs / (1 : Nat) := by
        rw [Nat.cast_one, div_one]
        exact_mod_cast hpos
      have hlog : 53 ≤ floorLog2 k.natAbs 1 := by
        rw [floorLog2_eq hpos Nat.one_pos, ← zpow_le_iff hq, Nat.cast_one, div_one]
        exact_mod_cast Nat.not_lt.mp hsmall
      rw [gridExponent, if_neg hpos.ne']
      omega
    unfold ofInt ofRatio
    dsimp only
    split
    · exact integer?_pack _ _ (by omega)
    · exact integer?_pack _ _ hgrid

/-! ## Remainders -/

theorem truncate_div (a : Int) {b : Int} (hb : b ≠ 0) : truncate ((a : ℚ) / b) = a.tdiv b := by
  obtain ⟨c, ha, hden⟩ := Rat.num_den_mk hb (Rat.divInt_eq_div a b).symm
  generalize (a : ℚ) / b = q at ha hden ⊢
  subst ha hden
  have hc : c ≠ 0 := fun hc => hb (by rw [hc, Int.zero_mul])
  rcases Int.lt_or_gt_of_ne hc with hneg | hpos
  · rw [truncate, ← Int.neg_tdiv_neg (c * q.num), ← Int.neg_mul, ← Int.neg_mul, Int.mul_tdiv_mul_of_pos _ _ (by omega)]
  · rw [truncate, Int.mul_tdiv_mul_of_pos _ _ hpos]

/-- The remainder of integers in the format is exact. -/
theorem integer?_rem {x y : Binary64} {a b : Int} (hx : x.integer? = some a) (hy : y.integer? = some b) (hb : b ≠ 0) :
    (x.rem y).integer? = some (a.tmod b) := by
  rw [integer?_eq_some_iff] at hx hy ⊢
  have hfits : Fits (a.tmod b).natAbs := by
    rw [Int.natAbs_tmod]
    exact (fits_of_value hx).mod (fits_of_value hy) (by omega)
  have hexact : (a : ℚ) - b * truncate (a / b) = (a.tmod b : Int) := by
    rw [truncate_div a hb, Int.tmod_def]
    push_cast
    rfl
  have hrem : x.rem y = round x.isNegative (a.tmod b : Int) := by
    rw [rem, hx, hy]
    exact congrArg (round x.isNegative) hexact
  rw [hrem, round, Rat.num_intCast, Rat.den_intCast, hfits.value?_ofRatio]
  by_cases hzero : a.tmod b = 0
  · cases x.isNegative <;> simp [hzero, signed]
  · rw [if_neg hzero, signed_natAbs]

end JsonTables.Binary64
