/-
  JsonTables.Proofs.Value.Digits — reading and writing values where the digits of integers are limited.

  Only integers have a limit: what has a point or a power of ten is a binary number, and a binary number that is an
  integer has few digits. So a number that can be written is read back from its text, and of a text that is no integer
  no digit is counted. Where reading or writing has a result at all, it is the one without a limit.

  Proved:
  - `toNumber_cases`, `toText_cases`: a value is read or written as it is without a limit, or the limit is the fault.
  - `isOverlong_toString`: the text of an integer is too long to be read if it is too long to be written.
  - `toNumber_text_number`: the text of a finite number is read as its normal form.
-/

import JsonTables.Proofs.Value.Key

namespace JsonTables

/-! ## Numbers within the limit -/

/-- A binary number that is an integer lies in the range of the format. -/
theorem Binary64.natAbs_lt_of_integer? {x : Binary64} {k : Int} (h : x.integer? = some k) :
    ∃ bits ≤ 1024, k.natAbs < 2 ^ bits := by
  cases x with
  | infinity _ => cases h
  | nan => cases h
  | finite negative m e hc =>
    obtain ⟨q, hq, hk⟩ := Option.bind_eq_some_iff.mp h
    have hden : Nat.pow 2 (-e).toNat ≠ 0 := (Nat.pow_pos (by decide)).ne'
    obtain ⟨c, hc0, hnum, -⟩ := Rat.mkRat_num_den hden (Option.some.inj hq : mkRat _ _ = q)
    have hmag : q.num.natAbs * c = m * Nat.pow 2 e.toNat := by
      have habs := congrArg Int.natAbs hnum
      rw [Int.natAbs_mul, Int.natAbs_natCast] at habs
      rw [← habs]
      cases negative with
      | true => exact (Int.natAbs_neg _).trans (Int.natAbs_natCast _)
      | false => rfl
    obtain ⟨hm, -, he⟩ := canonical_bounds hc
    split at hk
    · obtain rfl := Option.some.inj hk
      refine ⟨53 + e.toNat, by omega, ?_⟩
      calc q.num.natAbs ≤ q.num.natAbs * c := Nat.le_mul_of_pos_right _ (Nat.pos_of_ne_zero hc0)
        _ = m * 2 ^ e.toNat := hmag
        _ < 2 ^ 53 * 2 ^ e.toNat := Nat.mul_lt_mul_of_pos_right hm (Nat.pow_pos (by decide))
        _ = 2 ^ (53 + e.toNat) := (Nat.pow_add 2 53 _).symm
    · cases hk

/-- The least natural number of too many digits. -/
def leastTooLong : Nat := 10 ^ maxDigits

namespace Number

theorem withinDigits_int_iff {k : Int} : (int k).withinDigits maxDigits = true ↔ k.natAbs < 10 ^ maxDigits := by
  rw [withinDigits, decide_eq_true_eq]
  exact Nat.length_toDigits_le_iff (by decide) (by decide)

theorem withinDigits_leastTooLong : (int leastTooLong).withinDigits maxDigits = false := by
  rw [← Bool.not_eq_true, withinDigits_int_iff, Int.natAbs_natCast]
  exact Nat.lt_irrefl leastTooLong

theorem withinDigits_normalize {n : Number} (h : n.withinDigits maxDigits = true) :
    n.normalize.withinDigits maxDigits = true := by
  cases n with
  | int k => exact h
  | float x =>
    unfold normalize
    dsimp only
    cases hx : x.integer? with
    | none => rfl
    | some k =>
      obtain ⟨bits, hbits, hk⟩ := Binary64.natAbs_lt_of_integer? hx
      refine withinDigits_int_iff.mpr ?_
      calc k.natAbs < 2 ^ bits := hk
        _ ≤ 10 ^ bits := Nat.pow_le_pow_left (by decide) bits
        _ ≤ 10 ^ maxDigits := Nat.pow_le_pow_right (by decide) (hbits.trans (by decide))

end Number

namespace Value

theorem withinDigits_list (limit : Nat) (items : List Value) :
    (list items).withinDigits limit = items.all (withinDigits limit) := by
  rw [withinDigits]
  induction items with
  | nil => rfl
  | cons v items ih => rw [itemsWithinDigits, ih, List.all_cons]

theorem withinDigits_map (limit : Nat) (entries : List (String × Value)) :
    (map entries).withinDigits limit = entries.all fun e => e.2.withinDigits limit := by
  rw [withinDigits]
  induction entries with
  | nil => rfl
  | cons e entries ih => rw [entriesWithinDigits, ih, List.all_cons]

/-! ## Reading and writing -/

/-- A value is read as it would be without a limit, or the limit is the fault. -/
theorem toNumber_cases (v : Value) : v.toNumber = .ok v.number? ∨ v.toNumber = .error .digits := by
  cases v with
  | text s =>
    unfold toNumber
    dsimp only
    split
    · exact .inr rfl
    · exact .inl rfl
  | _ => exact .inl rfl

/-- So is a value written. -/
theorem toText_cases (v : Value) : v.toText = .ok v.asText ∨ v.toText = .error .digits := by
  unfold toText
  split
  · exact .inl rfl
  · exact .inr rfl

theorem toText_eq_ok {v : Value} (h : v.withinDigits maxDigits = true) : v.toText = .ok v.asText := if_pos h

theorem toText_eq_ok_iff {v : Value} {s : String} :
    v.toText = .ok s ↔ v.withinDigits maxDigits = true ∧ v.asText = s := by
  unfold toText
  split
  · rename_i h
    simp [h]
  · rename_i h
    simp [h]

/-! ## Texts -/

theorem countP_toString (k : Int) :
    (toString k).toList.countP Text.isDecimal = (Nat.toDigits 10 k.natAbs).length := by
  have hdigits : (Nat.toDigits 10 k.natAbs).countP Text.isDecimal = (Nat.toDigits 10 k.natAbs).length :=
    List.countP_eq_length.mpr fun c hc => Token.isDecimal_of_isDigit ((Token.digits_toDigits _).2 c hc)
  have hsign : (Numeral.signText (k < 0)).countP Text.isDecimal = 0 := by
    cases decide (k < 0) <;> rfl
  rw [Numeral.toString_eq, String.toList_ofList, List.countP_append, hsign, Nat.zero_add]
  simpa [Token.Written.text, Token.Written.natural, Token.Written.fractionText, Token.Written.exponentText] using hdigits

/-- The text of an integer is too long to be read if it is too long to be written. -/
theorem isOverlong_toString (k : Int) : isOverlong (toString k) = !(Number.int k).withinDigits maxDigits := by
  rw [isOverlong, countP_toString, numberOfText?_toString, Number.withinDigits, Bool.and_true, ← decide_not]
  simp only [Nat.not_le]

/-- Digits are counted in the numerals of integers only. -/
theorem isOverlong_eq_false {s : String} (h : ∀ k, numberOfText? s ≠ some (.int k)) : isOverlong s = false := by
  unfold isOverlong
  split
  · rename_i k hk
    exact absurd hk (h k)
  · exact Bool.and_false _

/-- What is no numeral is read as none. -/
theorem toNumber_text_of_none {s : String} (h : numberOfText? s = none) : (text s).toNumber = .ok none := by
  have hshort : isOverlong s = false := isOverlong_eq_false fun k => by simp [h]
  simp [toNumber, hshort, h]

/-- The text of a finite number that can be written is read as the normal form of the number. -/
theorem toNumber_text_number {n : Number} {q : Rat} (h : n.value? = some q) (hdigits : n.withinDigits maxDigits = true) :
    (text (number n).asText).toNumber = .ok (some n.normalize) := by
  have hread : numberOfText? n.normalize.text = some n.normalize := number?_text_number h
  have hshort : isOverlong n.normalize.text = false := by
    have hnormal := Number.withinDigits_normalize hdigits
    cases hn : n.normalize with
    | int k =>
      rw [hn] at hnormal
      show isOverlong (toString k) = false
      rw [isOverlong_toString, hnormal]
      rfl
    | float x =>
      rw [hn] at hread
      exact isOverlong_eq_false fun k => by simp [hread]
  show (if isOverlong n.normalize.text then Except.error Fault.digits else .ok (numberOfText? n.normalize.text)) = _
  rw [hshort, hread]
  rfl

end Value

end JsonTables
