/-
  JsonTables.Proofs.Numeral — numerals that are written out are read as themselves.

  The text of an integer, and that of a finite binary number, is a sign and a numeral without white space,
  so all of it is read. What begins otherwise is no numeral.

  Proved:
  - `ofText?_written`: a sign and a written numeral.
  - `ofText?_toString`, `ofText?_plain`: the text of an integer, and that of a finite binary number.
  - `head_of_ofText?`: with what a numeral begins.
-/

import JsonTables.Proofs.Numeral.Recognition

namespace JsonTables.Numeral

open Token

/-- The sign in front of a numeral, written where it is a minus. -/
def signText (negative : Bool) : List Char := if negative then ['-'] else []

/-! ## Reading -/

theorem isText_written (negative : Bool) (w : Written) :
    IsText (signText negative ++ w.text) { w.numeral with negative } := by
  have hsign : SignText (signText negative) negative := by
    cases negative
    · exact .absent
    · exact .minus
  have hfraction : PointText (Written.fractionText w.fraction) (w.fraction.map (·.map Text.digitValue)) := by
    cases hx : w.fraction with
    | none => exact .absent
    | some ds => exact .digits fun c hc => isDecimal_of_isDigit ((w.fraction_digits ds hx).2 c hc)
  have hexponent : ExponentText (Written.exponentText w.exponent) (w.exponent.map Written.exponentValue) := by
    cases hx : w.exponent with
    | none => exact .absent
    | some x =>
      obtain ⟨negative, ds⟩ := x
      obtain ⟨hne, hds⟩ := w.exponent_digits _ hx
      have hdecimals : Decimals ds := ⟨hne, fun c hc => isDecimal_of_isDigit (hds c hc)⟩
      cases negative
      · exact @ExponentText.digits 'e' ['+'] ds (.inl rfl) (.inr (.inr rfl)) hdecimals
      · exact @ExponentText.digits 'e' ['-'] ds (.inl rfl) (.inr (.inl rfl)) hdecimals
  have hwhole : ∀ c ∈ w.whole, Text.isDecimal c = true := fun c hc => isDecimal_of_isDigit (w.whole_digits.2 c hc)
  exact .mk hsign hwhole hfraction hexponent (.inl (by simpa using w.whole_digits.1))

theorem isBlank_of_mem_text (w : Written) {c : Char} (h : c ∈ w.text) : Text.isBlank c = false :=
  (isText_written false w).isBlank_of_mem h

theorem read_written (negative : Bool) (w : Written) :
    read (signText negative ++ w.text) = ({ w.numeral with negative }, []) := by
  have hread := (isText_written negative w).read (show EndsHere [] by simp [EndsHere])
  rwa [List.append_nil] at hread

/-- A numeral that is written out is read as itself. -/
theorem ofText?_written (negative : Bool) (w : Written) :
    ofText? (String.ofList (signText negative ++ w.text)) = some { w.numeral with negative } := by
  have htext := isText_written negative w
  rw [ofText?_eq_some_iff, String.toList_ofList, Text.trim_of_forall fun c hc => htext.isBlank_of_mem hc]
  exact htext

theorem toString_eq (k : Int) :
    toString k = String.ofList (signText (k < 0) ++ (Written.natural k.natAbs).text) := by
  have hnatural : (Written.natural k.natAbs).text = Nat.toDigits 10 k.natAbs := by
    simp [Written.text, Written.natural, Written.fractionText, Written.exponentText]
  rw [hnatural]
  cases k with
  | ofNat n => rfl
  | negSucc n =>
    show "-" ++ String.ofList (Nat.toDigits 10 (n + 1)) = _
    simp [signText]

/-- The text of an integer is a numeral for it, by form and by value. -/
theorem ofText?_toString (k : Int) : ∃ n, ofText? (toString k) = some n ∧ n.isInteger = true ∧ n.toInt = k := by
  rw [toString_eq, ofText?_written]
  refine ⟨_, rfl, rfl, ?_⟩
  have hvalue : Text.ofDigits (Written.natural k.natAbs).numeral.whole = k.natAbs := by
    show Text.ofDigits ((Nat.toDigits 10 k.natAbs).map Text.digitValue) = k.natAbs
    rw [ofDigits_map (digits_toDigits k.natAbs).2, Nat.ofDigitChars_ten_toDigits]
  simp only [toInt, hvalue, decide_eq_true_eq]
  split <;> omega

/-- The text of a finite binary number is a numeral for it, by form and by value. -/
theorem ofText?_plain {x : Binary64} (h : x.isFinite = true) :
    ∃ n, ofText? (Binary64.plain.text x) = some n ∧ n.isInteger = false ∧ n.toBinary64 = x := by
  obtain ⟨w, htext, hform, hvalue⟩ := text_written Binary64.plain h
  have hwritten : Binary64.plain.text x = String.ofList (signText x.isNegative ++ w.text) :=
    String.toList_inj.mp (htext.trans String.toList_ofList.symm)
  have hnumber : x ≠ .nan := by
    intro hx
    subst hx
    cases h
  rw [hwritten, ofText?_written]
  exact ⟨_, rfl, hform, Binary64.ofDecimal_of_abs hnumber hvalue⟩

/-- What the text of a numeral begins with. -/
theorem head_of_ofText? {s : String} {c : Char} {rest : List Char} (htext : s.toList = c :: rest)
    (hblank : Text.isBlank c = false) (h : (ofText? s).isSome = true) :
    c = '-' ∨ c = '+' ∨ c = '.' ∨ c = 'e' ∨ c = 'E' ∨ Text.isDecimal c = true := by
  by_contra hne
  simp only [not_or, Bool.not_eq_true] at hne
  obtain ⟨hminus, hplus, hpoint, hlower, hupper, hdecimal⟩ := hne
  have hsign : sign (c :: Text.trimEnd rest) = (false, c :: Text.trimEnd rest) := by
    unfold sign
    split
    · rename_i he
      exact absurd (List.cons.inj he).1 hminus
    · rename_i he
      exact absurd (List.cons.inj he).1 hplus
    · rfl
  have hfraction : fraction? (c :: Text.trimEnd rest) = (none, c :: Text.trimEnd rest) := by
    unfold fraction?
    split
    · rename_i he
      exact absurd (List.cons.inj he).1 hpoint
    · rfl
  have hread : read (c :: Text.trimEnd rest) = (⟨false, [], none, none⟩, c :: Text.trimEnd rest) := by
    simp [read, hsign, digits, hdecimal, hfraction, exponent?, hlower, hupper]
  rw [ofText?, htext, Text.trim_cons hblank, hread] at h
  cases h

end JsonTables.Numeral
