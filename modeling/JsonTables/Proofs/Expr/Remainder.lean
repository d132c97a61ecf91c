/-
  JsonTables.Proofs.Expr.Remainder — the remainder of two integers.

  Sums, differences and products of integers are exact; a remainder is computed in the binary format, whether it is
  written as an operator or as a call. So integers that fit into the format have the remainder that they should,
  others have that of the integers to which they are rounded, and beyond the range of the format there is none.

  Proved:
  - `isRemainder_tmod`: the remainder of the quotient truncated towards zero.
  - `remainder_of_integers`: what the remainder of two integers is.
  - `remainder_of_wide_integer`: and that it may be wrong.
-/

import JsonTables.Proofs.Binary64.Remainder
import JsonTables.Proofs.Expr.Keys
import JsonTables.Proofs.Function.Faults

namespace JsonTables

/-- What is left of `a` for the quotient by `b` truncated towards zero: less than `b`, and zero or of the sign of `a`. -/
structure IsRemainder (a b r : Int) : Prop where
  quotient : a = b * a.tdiv b + r
  less : r.natAbs < b.natAbs
  sign : r = 0 ∨ r.sign = a.sign

theorem isRemainder_tmod (a : Int) {b : Int} (hb : b ≠ 0) : IsRemainder a b (a.tmod b) where
  quotient := (Int.mul_tdiv_add_tmod a b).symm
  less := by
    rw [Int.natAbs_tmod]
    exact Nat.mod_lt _ (Int.natAbs_pos.mpr hb)
  sign := by
    by_cases hdvd : b ∣ a
    · exact .inl (Int.tmod_eq_zero_of_dvd hdvd)
    · right
      rw [Int.sign_tmod, if_neg hdvd]

theorem IsRemainder.eq_tmod {a b r : Int} (h : IsRemainder a b r) : r = a.tmod b := by
  have hquotient := h.quotient
  rw [Int.tmod_def]
  omega

/-! ## In the binary format -/

namespace Number

/-- The remainder in the binary format, where both integers have a place there. -/
theorem rem_int {a b : Int} (ha : (Binary64.ofInt a).isInfinite = false) (hb : (Binary64.ofInt b).isInfinite = false) :
    (int a).rem (int b) = .ok (float ((Binary64.ofInt a).rem (Binary64.ofInt b))) := by
  have hnumber : ∀ k, Binary64.ofInt k ≠ .nan := fun k => Binary64.ofRatio_ne_nan _ _ _
  have hnan := Binary64.isNan_rem (hnumber a) (hnumber b)
  rw [ha] at hnan
  simp [rem, toBinary64, ha, hb, hnan, bind, Except.bind, pure, Except.pure]

theorem rem_int_overflow {a b : Int} (h : (Binary64.ofInt a).isInfinite = true ∨ (Binary64.ofInt b).isInfinite = true) :
    (int a).rem (int b) = .error .overflow := by
  cases ha : (Binary64.ofInt a).isInfinite with
  | true => simp [rem, toBinary64, ha, bind, Except.bind]
  | false =>
    have hb : (Binary64.ofInt b).isInfinite = true := h.resolve_left (by simp [ha])
    simp [rem, toBinary64, ha, hb, bind, Except.bind]

end Number

/-- No other integer is rounded to zero. -/
theorem integer?_ofInt_ne_zero {k n : Int} (hk : k ≠ 0) (hn : (Binary64.ofInt k).integer? = some n) : n ≠ 0 := by
  intro hzero
  have hvalue := Binary64.integer?_eq_some_iff.mp hn
  have hnotzero := Binary64.isZero_ofInt hk
  rw [Binary64.isZero, hvalue, hzero] at hnotzero
  cases hnotzero

/-- The remainder of two integers as a value: that of the integers to which they are rounded. -/
def remainderOf (a b : Int) : Except Fault Value :=
  match (Binary64.ofInt a).integer?, (Binary64.ofInt b).integer? with
  | some m, some n => .ok (Value.ofInt (m.tmod n))
  | _, _ => .error .overflow

theorem remainderOf_eq {a b m n : Int} (hm : (Binary64.ofInt a).integer? = some m) (hn : (Binary64.ofInt b).integer? = some n) :
    remainderOf a b = .ok (Value.ofInt (m.tmod n)) := by
  rw [remainderOf, hm, hn]

theorem remainderOf_overflow {a b : Int} (h : (Binary64.ofInt a).isInfinite = true ∨ (Binary64.ofInt b).isInfinite = true) :
    remainderOf a b = .error .overflow := by
  rw [remainderOf]
  rcases h with ha | hb
  · rw [Binary64.integer?_of_isInfinite ha]
  · rw [Binary64.integer?_of_isInfinite hb]
    split
    · rename_i hnone
      cases hnone
    · rfl

theorem normal_rem (a : Int) {b : Int} (hb : b ≠ 0) : ((Number.int a).rem (.int b)).map Function.normal = remainderOf a b := by
  rcases Binary64.integer_or_infinite_ofInt a with ha | ⟨m, hm⟩
  · rw [Number.rem_int_overflow (.inl ha), remainderOf_overflow (.inl ha)]
    rfl
  · rcases Binary64.integer_or_infinite_ofInt b with hb' | ⟨n, hn⟩
    · rw [Number.rem_int_overflow (.inr hb'), remainderOf_overflow (.inr hb')]
      rfl
    · have hrem := Binary64.integer?_rem hm hn (integer?_ofInt_ne_zero hb hn)
      rw [Number.rem_int (Binary64.isInfinite_of_integer? hm) (Binary64.isInfinite_of_integer? hn), remainderOf_eq hm hn]
      simp [Except.map, Function.normal, Number.normalize, hrem, Value.ofInt]

/-! ## Operator and call -/

section

variable {a b : Int}

theorem isZero_int_of_ne (hb : b ≠ 0) : (Number.int b).isZero = false :=
  Bool.eq_false_iff.mpr fun h => hb (Number.isZero_int.mp h)

theorem onValues_rem (hb : b ≠ 0) : Operator.rem.onValues (Value.ofInt a) (Value.ofInt b) = remainderOf a b := by
  rw [← normal_rem a hb]
  have happly : Operator.rem.onValues (Value.ofInt a) (Value.ofInt b) =
      (Operator.rem.apply (.int a) (.int b)).map Function.normal := rfl
  rw [happly, Operator.apply, if_neg (by simp [isZero_int_of_ne hb])]

theorem modulo_ofInt (hb : b ≠ 0) : Function.modulo [Value.ofInt a, Value.ofInt b] = remainderOf a b := by
  rw [← normal_rem a hb]
  have happly : Function.modulo [Value.ofInt a, Value.ofInt b] =
      if (Number.int b).isZero then .ok (.number (.int a)) else ((Number.int a).rem (.int b)).map Function.normal := rfl
  rw [happly, if_neg (by simp [isZero_int_of_ne hb])]

/-- Both ways of writing a remainder. -/
def remainders (name : String) (x y : Expr) : List Expr := [.binary .rem x y, .call name [x, y]]

theorem valueOn_remainders {bindings : Entries Value} {row : Row} {name : String} {x y : Expr}
    (hname : Text.lower name = "mod") (hx : x.valueOn ⟨Registry.builtin, bindings⟩ row = .ok (Value.ofInt a))
    (hy : y.valueOn ⟨Registry.builtin, bindings⟩ row = .ok (Value.ofInt b)) (hb : b ≠ 0) :
    ∀ e ∈ remainders name x y, e.valueOn ⟨Registry.builtin, bindings⟩ row = remainderOf a b := by
  have hlookup : Registry.builtin.lookup? name = some (Function.plain 2 2 Function.modulo) := by
    rw [Registry.lookup?, hname]
    rfl
  have hvalues : Expr.valuesOn ⟨Registry.builtin, bindings⟩ row [x, y] = .ok [Value.ofInt a, Value.ofInt b] := by
    rw [Expr.valuesOn_cons, Expr.valuesOn_cons, hx, hy]
    rfl
  intro e he
  simp only [remainders, List.mem_cons, List.not_mem_nil, or_false] at he
  rcases he with rfl | rfl
  · rw [Expr.valueOn_binary, hx, hy]
    exact onValues_rem hb
  · have hcall : row.aggregate? Registry.builtin (.call name [x, y]) = none := rfl
    rw [Expr.valueOn_call, hcall]
    dsimp only
    rw [hlookup, hvalues]
    exact modulo_ofInt hb

end

/-- For all expressions that are integers, the divisor not zero: their remainder, as an operator or as a call, is that
of the integers to which the binary format rounds them, and fails if one of them is out of its range. So it is the
remainder itself where both integers fit into the format. -/
theorem remainder_of_integers {bindings : Entries Value} {row : Row} {name : String} {x y : Expr} {a b : Int}
    (hname : Text.lower name = "mod") (hx : x.valueOn ⟨Registry.builtin, bindings⟩ row = .ok (Value.ofInt a))
    (hy : y.valueOn ⟨Registry.builtin, bindings⟩ row = .ok (Value.ofInt b)) (hb : b ≠ 0) :
    ∀ e ∈ remainders name x y,
      ((∃ m n r, (Binary64.ofInt a).integer? = some m ∧ (Binary64.ofInt b).integer? = some n ∧ IsRemainder m n r ∧
          e.valueOn ⟨Registry.builtin, bindings⟩ row = .ok (Value.ofInt r)) ∨
        ((Binary64.ofInt a).isInfinite = true ∨ (Binary64.ofInt b).isInfinite = true) ∧
          e.valueOn ⟨Registry.builtin, bindings⟩ row = .error .overflow) ∧
      (Binary64.Fits a.natAbs → Binary64.Fits b.natAbs →
        ∃ r, e.valueOn ⟨Registry.builtin, bindings⟩ row = .ok (Value.ofInt r) ∧ IsRemainder a b r) := by
  intro e he
  rw [valueOn_remainders hname hx hy hb e he]
  constructor
  · rcases Binary64.integer_or_infinite_ofInt a with ha | ⟨m, hm⟩
    · exact .inr ⟨.inl ha, remainderOf_overflow (.inl ha)⟩
    · rcases Binary64.integer_or_infinite_ofInt b with hb' | ⟨n, hn⟩
      · exact .inr ⟨.inr hb', remainderOf_overflow (.inr hb')⟩
      · exact .inl ⟨m, n, _, hm, hn, isRemainder_tmod m (integer?_ofInt_ne_zero hb hn), remainderOf_eq hm hn⟩
  · intro ha hb'
    exact ⟨_, remainderOf_eq (Binary64.integer?_ofInt_iff.mpr ha) (Binary64.integer?_ofInt_iff.mpr hb'),
      isRemainder_tmod a hb⟩

theorem remainder_of_integers_small :
    Text.lower "MOD" = "mod" ∧
    (Expr.literal (.number (.int (-7)))).valueOn ⟨Registry.builtin, []⟩ Row.empty = .ok (Value.ofInt (-7)) ∧
    (Expr.literal (.number (.int 3))).valueOn ⟨Registry.builtin, []⟩ Row.empty = .ok (Value.ofInt 3) ∧
    ∀ e ∈ remainders "MOD" (.literal (.number (.int (-7)))) (.literal (.number (.int 3))),
      e.valueOn ⟨Registry.builtin, []⟩ Row.empty = .ok (Value.ofInt (-1)) := by
  refine ⟨by decide, rfl, rfl, fun e he => ?_⟩
  have hfits : Binary64.Fits (Int.natAbs (-7)) ∧ Binary64.Fits (Int.natAbs 3) :=
    ⟨Binary64.fits_of_le (by decide), Binary64.fits_of_le (by decide)⟩
  obtain ⟨r, hr, hremainder⟩ := (remainder_of_integers (by decide) rfl rfl (by decide) e he).2 hfits.1 hfits.2
  rw [hr, hremainder.eq_tmod]
  rfl

/-- The least integer that does not fit into the format is odd, and the remainder by two of both forms is zero. -/
theorem remainder_of_wide_integer :
    (Expr.binary .rem (.literal (.number (.int 9007199254740993))) (.literal (.number (.int 2)))).valueOn
      ⟨Registry.builtin, []⟩ Row.empty = .ok (Value.ofInt 0) ∧
    (Expr.call "mod" [.literal (.number (.int 9007199254740993)), .literal (.number (.int 2))]).valueOn
      ⟨Registry.builtin, []⟩ Row.empty = .ok (Value.ofInt 0) ∧
    IsRemainder 9007199254740993 2 1 ∧ ¬IsRemainder 9007199254740993 2 0 := by
  have hwide : remainderOf 9007199254740993 2 = .ok (Value.ofInt 0) := by
    have ha : (Binary64.ofInt 9007199254740993).integer? = some 9007199254740992 := by decide +kernel
    have hb : (Binary64.ofInt 2).integer? = some 2 := by decide +kernel
    exact remainderOf_eq ha hb
  have hall := @valueOn_remainders 9007199254740993 2 [] Row.empty "mod" (.literal (.number (.int 9007199254740993)))
    (.literal (.number (.int 2))) (by decide) rfl rfl (by decide)
  refine ⟨(hall _ (by simp [remainders])).trans hwide, (hall _ (by simp [remainders])).trans hwide,
    isRemainder_tmod 9007199254740993 (by decide), fun h => ?_⟩
  have hone := h.eq_tmod
  revert hone
  decide

end JsonTables
