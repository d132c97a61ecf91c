/-
  JsonTables.Proofs.Token.Numbers — numbers that are written out are read as themselves.

  A numeral is digits, perhaps a point with digits behind it, perhaps a power of ten. Whatever follows it
  in a query is a blank, a comma or a closing parenthesis, and so no part of it. Every layout of a decimal
  is such a numeral, and its digits with its power of ten make up the decimal again.

  Proved:
  - `number_append`: what is read of a numeral and its continuation is the numeral.
  - `magnitude_written`: the layout of a decimal is a numeral that denotes it.
-/

import JsonTables.Proofs.Binary64.Decimal
import JsonTables.Token.Lexer

namespace JsonTables.Token

/-! ## Digits -/

/-- At least one digit, and nothing else. -/
def Digits (ds : List Char) : Prop := ds ≠ [] ∧ ∀ c ∈ ds, c.isDigit = true

/-- What may stand behind an expression: the end, a blank, a comma or a closing parenthesis. -/
def Stops (rest : List Char) : Prop := ∀ c ∈ rest.head?, c = ' ' ∨ c = ',' ∨ c = ')'

theorem takeWhile_append_stop {p : Char → Bool} {cs rest : List Char} (hcs : ∀ c ∈ cs, p c = true)
    (hrest : ∀ c ∈ rest.head?, p c = false) : (cs ++ rest).takeWhile p = cs ∧ (cs ++ rest).dropWhile p = rest := by
  rw [List.takeWhile_append_of_pos hcs, List.dropWhile_append_of_pos hcs]
  cases rest with
  | nil => simp
  | cons c rest => simp [hrest c rfl]

/-- A text is cut in front of the first character that is not in a class. -/
theorem exists_stop (p : Char → Bool) (cs : List Char) :
    ∃ front rest, cs = front ++ rest ∧ (∀ c ∈ front, p c = true) ∧ ∀ c ∈ rest.head?, p c = false := by
  refine ⟨cs.takeWhile p, cs.dropWhile p, List.takeWhile_append_dropWhile.symm, List.all_eq_true.mp List.all_takeWhile,
    fun c hc => ?_⟩
  have hhead := List.head?_dropWhile_not p cs
  rwa [hc] at hhead

theorem takeWhile_ne {d : Char} {cs rest : List Char} (hcs : d ∉ cs) (hrest : ∀ c ∈ rest.head?, c = d) :
    (cs ++ rest).takeWhile (· ≠ d) = cs := by
  refine (takeWhile_append_stop (fun c hc => ?_) fun c hc => ?_).1
  · simp only [ne_eq, decide_eq_true_eq]
    rintro rfl
    exact hcs hc
  · simp [hrest c hc]

/-- A text is cut in front of the first place of a character. -/
theorem exists_first_place (d : Char) (cs : List Char) : ∃ front rest, cs = front ++ rest ∧ d ∉ front ∧ ∀ c ∈ rest.head?, c = d := by
  obtain ⟨front, rest, rfl, hfront, hrest⟩ := exists_stop (· ≠ d) cs
  refine ⟨front, rest, rfl, fun hd => ?_, fun c hc => by simpa using hrest c hc⟩
  simpa using hfront d hd

theorem digitValue?_of_isDigit {c : Char} (h : c.isDigit = true) :
    Text.digitValue? c = some (c.toNat - '0'.toNat) := by
  have hlt : c.toNat < 0x80 := by
    have hle : c.val ≤ '9'.val := by
      simp only [Char.isDigit, Bool.and_eq_true, decide_eq_true_eq] at h
      exact h.2
    exact Nat.lt_of_le_of_lt hle (by decide)
  simp only [Text.digitValue?, if_pos hlt, h, if_true]

theorem isDecimal_of_isDigit {c : Char} (h : c.isDigit = true) : Text.isDecimal c = true := by
  rw [Text.isDecimal, digitValue?_of_isDigit h]
  rfl

/-- A row of digits is read up to what is no digit. -/
theorem digits_of_forall {ds rest : List Char} (hds : ∀ c ∈ ds, Text.isDecimal c = true)
    (hrest : ∀ c ∈ rest.head?, Text.isDecimal c = false) :
    Numeral.digits (ds ++ rest) = (ds.map Text.digitValue, rest) := by
  obtain ⟨htake, hdrop⟩ := takeWhile_append_stop hds hrest
  rw [Numeral.digits, htake, hdrop]

theorem digits_append {ds rest : List Char} (hds : Digits ds) (hrest : ∀ c ∈ rest.head?, Text.isDecimal c = false) :
    Numeral.digits (ds ++ rest) = (ds.map Text.digitValue, rest) :=
  digits_of_forall (fun c hc => isDecimal_of_isDigit (hds.2 c hc)) hrest

theorem ofDigits_map {ds : List Char} (hds : ∀ c ∈ ds, c.isDigit = true) :
    Text.ofDigits (ds.map Text.digitValue) = Nat.ofDigitChars 10 ds 0 := by
  rw [Text.ofDigits, Nat.ofDigitChars_eq_foldl, List.foldl_map]
  refine List.foldl_ext _ _ 0 fun n c hc => ?_
  rw [Text.digitValue, digitValue?_of_isDigit (hds c hc)]
  rfl

theorem digits_toDigits (n : Nat) : Digits (Nat.toDigits 10 n) :=
  ⟨Nat.toDigits_ne_nil, fun _ hc => Nat.isDigit_of_mem_toDigits (by decide) (by decide) hc⟩

theorem Digits.append_left {ds es : List Char} (hds : ∀ c ∈ ds, c.isDigit = true) (hes : Digits es) :
    Digits (ds ++ es) := by
  refine ⟨by simp [hes.1], fun c hc => ?_⟩
  rcases List.mem_append.mp hc with hc | hc
  · exact hds c hc
  · exact hes.2 c hc

theorem isDigit_of_mem_zeros {n : Nat} {c : Char} (hc : c ∈ List.replicate n '0') : c.isDigit = true := by
  rw [List.eq_of_mem_replicate hc]
  rfl

/-! ## Numerals -/

/-- A numeral without a sign in front, as it is written. -/
structure Written where
  whole : List Char
  fraction : Option (List Char)
  /-- The power of ten: whether it is negative, and its digits. -/
  exponent : Option (Bool × List Char)
  whole_digits : Digits whole
  fraction_digits : ∀ ds ∈ fraction, Digits ds
  exponent_digits : ∀ x ∈ exponent, Digits x.2

namespace Written

def fractionText : Option (List Char) → List Char
  | none => []
  | some ds => '.' :: ds

def exponentText : Option (Bool × List Char) → List Char
  | none => []
  | some (negative, ds) => 'e' :: (if negative then '-' else '+') :: ds

def text (w : Written) : List Char := w.whole ++ (fractionText w.fraction ++ exponentText w.exponent)

def exponentValue (x : Bool × List Char) : Int :=
  let n : Int := Text.ofDigits (x.2.map Text.digitValue)
  if x.1 then -n else n

def numeral (w : Written) : Numeral :=
  ⟨false, w.whole.map Text.digitValue, w.fraction.map (·.map Text.digitValue), w.exponent.map exponentValue⟩

/-- The power of ten and what stands behind the numeral go on with no digit and no point. -/
theorem head_exponentText {x : Option (Bool × List Char)} {rest : List Char} (h : Stops rest) {c : Char}
    (hc : c ∈ (exponentText x ++ rest).head?) : Text.isDecimal c = false ∧ c ≠ '.' := by
  rcases x with _ | ⟨negative, ds⟩
  · rcases h c hc with rfl | rfl | rfl <;> decide
  · obtain rfl : 'e' = c := by simpa [exponentText] using hc
    decide

theorem exponent?_append {x : Option (Bool × List Char)} (hx : ∀ y ∈ x, Digits y.2) {rest : List Char}
    (h : Stops rest) : Numeral.exponent? (exponentText x ++ rest) = (x.map exponentValue, rest) := by
  rcases x with _ | ⟨negative, ds⟩
  · cases rest with
    | nil => rfl
    | cons c rest =>
      have hne : ¬(c = 'e' ∨ c = 'E') := by
        rcases h c rfl with rfl | rfl | rfl <;> decide
      simp only [exponentText, List.nil_append, Numeral.exponent?, if_neg hne]
      rfl
  · have hds : Digits ds := hx _ rfl
    have hstop : ∀ c ∈ rest.head?, Text.isDecimal c = false := fun c hc =>
      (@head_exponentText none rest h c hc).1
    have hread : Numeral.digits (ds ++ rest) = (ds.map Text.digitValue, rest) := digits_append hds hstop
    obtain ⟨v, vs, hvs⟩ := List.exists_cons_of_ne_nil (show ds.map Text.digitValue ≠ [] by simp [hds.1])
    rw [hvs] at hread
    cases negative <;> simp [exponentText, Numeral.exponent?, Numeral.sign, exponentValue, hread, hvs]

theorem fraction?_append {x : Option (List Char)} (hx : ∀ ds ∈ x, Digits ds) {rest : List Char}
    (h : ∀ c ∈ rest.head?, Text.isDecimal c = false ∧ c ≠ '.') :
    Numeral.fraction? (fractionText x ++ rest) = (x.map (·.map Text.digitValue), rest) := by
  rcases x with _ | ds
  · show Numeral.fraction? rest = (none, rest)
    unfold Numeral.fraction?
    split
    · exact absurd rfl (h '.' rfl).2
    · rfl
  · have hread : Numeral.digits (ds ++ rest) = (ds.map Text.digitValue, rest) :=
      digits_append (hx ds rfl) fun c hc => (h c hc).1
    simp [fractionText, Numeral.fraction?, hread]

end Written

theorem head_fractionText {x : Option (List Char)} {rest : List Char}
    (h : ∀ c ∈ rest.head?, Text.isDecimal c = false) :
    ∀ c ∈ (Written.fractionText x ++ rest).head?, Text.isDecimal c = false := by
  intro c hc
  rcases x with _ | ds
  · exact h c hc
  · obtain rfl : '.' = c := by simpa [Written.fractionText] using hc
    decide

/-- What is read of a numeral is the numeral, whatever may stand behind it. -/
theorem number_append (w : Written) {rest : List Char} (h : Stops rest) :
    number (w.text ++ rest) = (if w.numeral.isInteger then integer (Text.ofDigits w.numeral.whole)
      else float w.numeral.toBinary64, w.text.length) := by
  have hexponent := @Written.head_exponentText w.exponent rest h
  have hwhole : Numeral.digits (w.text ++ rest) = (w.whole.map Text.digitValue,
      Written.fractionText w.fraction ++ (Written.exponentText w.exponent ++ rest)) := by
    rw [Written.text, List.append_assoc, List.append_assoc]
    exact digits_append w.whole_digits (head_fractionText fun c hc => (hexponent hc).1)
  have hfraction := Written.fraction?_append w.fraction_digits fun c hc => hexponent hc
  have hlength : (w.text ++ rest).length - rest.length = w.text.length := by simp
  simp only [number, hwhole, hfraction]
  rcases hx : w.fraction with _ | ds
  · simp only [Option.map_none, Written.fractionText, List.nil_append, Written.exponent?_append w.exponent_digits h,
      hlength, Written.numeral, hx]
  · -- A written fraction has digits, so the lexer takes it.
    obtain ⟨v, vs, hvs⟩ := List.exists_cons_of_ne_nil
      (show ds.map Text.digitValue ≠ [] by simp [(w.fraction_digits ds hx).1])
    simp only [Option.map_some, hvs, Written.exponent?_append w.exponent_digits h, hlength, Written.numeral, hx]

/-! ## Layouts -/

theorem Written.toBinary64_numeral (w : Written) :
    w.numeral.toBinary64 = Binary64.ofDecimal false (Nat.ofDigitChars 10 (w.whole ++ w.fraction.getD []) 0)
      ((w.exponent.map Written.exponentValue).getD 0 - (w.fraction.getD []).length) := by
  have hdigits : ∀ c ∈ w.whole ++ w.fraction.getD [], c.isDigit = true := by
    intro c hc
    rcases List.mem_append.mp hc with hc | hc
    · exact w.whole_digits.2 c hc
    · rcases hx : w.fraction with _ | ds
      · simp [hx] at hc
      · exact (w.fraction_digits ds hx).2 c (by simpa [hx] using hc)
  rw [← ofDigits_map hdigits, List.map_append]
  rcases hx : w.fraction with _ | ds <;>
    simp [Written.numeral, Numeral.toBinary64, Numeral.significand, Numeral.scale, hx]

/-- A natural number in decimal digits. -/
def Written.natural (n : Nat) : Written where
  whole := Nat.toDigits 10 n
  fraction := none
  exponent := none
  whole_digits := digits_toDigits n
  fraction_digits := by simp
  exponent_digits := by simp

theorem number_natural (n : Nat) {rest : List Char} (h : Stops rest) :
    number (Nat.toDigits 10 n ++ rest) = (integer n, (Nat.toDigits 10 n).length) := by
  have hread := number_append (Written.natural n) h
  have htext : (Written.natural n).text = Nat.toDigits 10 n := by
    simp [Written.text, Written.natural, Written.fractionText, Written.exponentText]
  have hvalue : Text.ofDigits (Written.natural n).numeral.whole = n := by
    show Text.ofDigits ((Nat.toDigits 10 n).map Text.digitValue) = n
    rw [ofDigits_map (digits_toDigits n).2, Nat.ofDigitChars_ten_toDigits]
  rw [htext, hvalue] at hread
  exact hread

/-- The numeral is a binary number by its form, and denotes the decimal. -/
def Written.Denotes (w : Written) (d : Binary64.Decimal) : Prop :=
  w.numeral.isInteger = false ∧ w.numeral.toBinary64 = Binary64.ofDecimal false d.digits d.exponent

theorem toList_padZeros (width : Nat) (s : String) :
    (Binary64.padZeros width s).toList = List.replicate (width - s.length) '0' ++ s.toList := by
  simp [Binary64.padZeros]

/-- A decimal below one: zeros behind the point, and then its digits. -/
theorem written_below_one (d : Binary64.Decimal) (h : d.exponent + (Nat.toDigits 10 d.digits).length ≤ 0) :
    ∃ w : Written, w.text = '0' :: '.' :: (List.replicate
      ((-d.exponent).toNat - (Nat.toDigits 10 d.digits).length) '0' ++ Nat.toDigits 10 d.digits) ∧ w.Denotes d := by
  let w : Written := {
    whole := ['0']
    fraction := some (List.replicate ((-d.exponent).toNat - (Nat.toDigits 10 d.digits).length) '0' ++
      Nat.toDigits 10 d.digits)
    exponent := none
    whole_digits := ⟨by simp, by simp⟩
    fraction_digits := by
      intro ds he
      cases he
      exact Digits.append_left (fun c hc => isDigit_of_mem_zeros hc) (digits_toDigits _)
    exponent_digits := by simp }
  refine ⟨w, by simp [w, Written.text, Written.fractionText, Written.exponentText], by rfl, ?_⟩
  rw [Written.toBinary64_numeral]
  congr 1
  · simp [w, Nat.ofDigitChars_append, Nat.ofDigitChars_cons, Nat.ofDigitChars_ten_toDigits]
  · simp [w]
    omega

/-- The point stands between the digits. -/
theorem written_point (d : Binary64.Decimal) {k : Nat} (hk : 0 < k)
    (h : d.exponent + (Nat.toDigits 10 d.digits).length = k) (hlt : k < (Nat.toDigits 10 d.digits).length) :
    ∃ w : Written, w.text = (Nat.toDigits 10 d.digits).take k ++ '.' :: (Nat.toDigits 10 d.digits).drop k ∧
      w.Denotes d := by
  have hmem : ∀ c ∈ Nat.toDigits 10 d.digits, c.isDigit = true := (digits_toDigits d.digits).2
  let w : Written := {
    whole := (Nat.toDigits 10 d.digits).take k
    fraction := some ((Nat.toDigits 10 d.digits).drop k)
    exponent := none
    whole_digits := ⟨by simp [Nat.toDigits_ne_nil]; omega, fun c hc => hmem c (List.mem_of_mem_take hc)⟩
    fraction_digits := by
      intro ds he
      cases he
      exact ⟨by simpa using hlt, fun c hc => hmem c (List.mem_of_mem_drop hc)⟩
    exponent_digits := by simp }
  refine ⟨w, by simp [w, Written.text, Written.fractionText, Written.exponentText], by rfl, ?_⟩
  rw [Written.toBinary64_numeral]
  congr 1
  · simp [w, Nat.ofDigitChars_ten_toDigits]
  · simp [w]
    omega

/-- An integer: zeros may follow its digits, and one zero stands behind the point. -/
theorem written_integer (d : Binary64.Decimal) (h : 0 ≤ d.exponent) :
    ∃ w : Written, w.text = Nat.toDigits 10 d.digits ++ List.replicate d.exponent.toNat '0' ++ ['.', '0'] ∧
      w.Denotes d := by
  have hmem : ∀ c ∈ Nat.toDigits 10 d.digits, c.isDigit = true := (digits_toDigits d.digits).2
  let w : Written := {
    whole := Nat.toDigits 10 d.digits ++ List.replicate d.exponent.toNat '0'
    fraction := some ['0']
    exponent := none
    whole_digits := ⟨by simp [Nat.toDigits_ne_nil], fun c hc =>
      (List.mem_append.mp hc).elim (hmem c) isDigit_of_mem_zeros⟩
    fraction_digits := by
      intro ds he
      cases he
      exact ⟨by simp, by simp⟩
    exponent_digits := by simp }
  refine ⟨w, by simp [w, Written.text, Written.fractionText, Written.exponentText], by rfl, ?_⟩
  have hvalue : Nat.ofDigitChars 10 (w.whole ++ w.fraction.getD []) 0 = d.digits * 10 ^ (d.exponent.toNat + 1) := by
    simp only [w, Option.getD_some, Nat.ofDigitChars_append, Nat.ofDigitChars_ten_toDigits,
      Nat.ofDigitChars_replicate_zero, Nat.ofDigitChars_cons, Nat.ofDigitChars_nil, Nat.pow_succ]
    simp only [Nat.sub_self, Nat.add_zero]
    ring
  rw [Written.toBinary64_numeral, hvalue, Binary64.ofDecimal_mul_pow]
  congr 1
  simp [w]
  omega

/-- One digit in front of the point and the power of ten behind; without further digits there is no point. -/
theorem written_scientific (d : Binary64.Decimal) (zeros : Nat) :
    ∃ w : Written, w.text = (Nat.toDigits 10 d.digits).take 1 ++
        (if (Nat.toDigits 10 d.digits).drop 1 = [] then [] else '.' :: (Nat.toDigits 10 d.digits).drop 1) ++
        'e' :: (if d.exponent + (Nat.toDigits 10 d.digits).length - 1 < 0 then '-' else '+') ::
        (List.replicate zeros '0' ++ Nat.toDigits 10 (d.exponent + (Nat.toDigits 10 d.digits).length - 1).natAbs) ∧
      w.Denotes d := by
  have hmem : ∀ c ∈ Nat.toDigits 10 d.digits, c.isDigit = true := (digits_toDigits d.digits).2
  have hpos : 0 < (Nat.toDigits 10 d.digits).length := Nat.length_toDigits_pos
  generalize hp : d.exponent + ((Nat.toDigits 10 d.digits).length : Int) - 1 = power
  let w : Written := {
    whole := (Nat.toDigits 10 d.digits).take 1
    fraction := if (Nat.toDigits 10 d.digits).drop 1 = [] then none else some ((Nat.toDigits 10 d.digits).drop 1)
    exponent := some (decide (power < 0), List.replicate zeros '0' ++ Nat.toDigits 10 power.natAbs)
    whole_digits := ⟨by simp [Nat.toDigits_ne_nil], fun c hc => hmem c (List.mem_of_mem_take hc)⟩
    fraction_digits := by
      intro ds hds
      split at hds
      · cases hds
      · rename_i hne
        obtain rfl := Option.some.inj hds
        exact ⟨hne, fun c hc => hmem c (List.mem_of_mem_drop hc)⟩
    exponent_digits := by
      intro x he
      cases he
      exact Digits.append_left (fun c hc => isDigit_of_mem_zeros hc) (digits_toDigits _) }
  have hpower : (w.exponent.map Written.exponentValue).getD 0 = power := by
    have hvalue := ofDigits_map (w.exponent_digits _ rfl).2
    simp only [Nat.ofDigitChars_append, Nat.ofDigitChars_replicate_zero, Nat.mul_zero,
      Nat.ofDigitChars_ten_toDigits] at hvalue
    simp only [w, Option.map_some, Option.getD_some, Written.exponentValue, hvalue, decide_eq_true_eq]
    split <;> omega
  have hfraction : w.fraction.getD [] = (Nat.toDigits 10 d.digits).drop 1 := by
    simp only [w]
    split
    · rename_i hnil
      simp [hnil]
    · rfl
  refine ⟨w, ?_, ?_, ?_⟩
  · simp only [w, Written.text, Written.exponentText, decide_eq_true_eq, List.append_assoc]
    split <;> rfl
  · simp [w, Written.numeral, Numeral.isInteger]
  · rw [Written.toBinary64_numeral, hpower, hfraction]
    congr 1
    · rw [show w.whole = (Nat.toDigits 10 d.digits).take 1 from rfl, List.take_append_drop,
        Nat.ofDigitChars_ten_toDigits]
    · simp only [List.length_drop]
      omega

/-- Every layout of a decimal is a numeral that denotes it. -/
theorem magnitude_written (layout : Binary64.Layout) (d : Binary64.Decimal) :
    ∃ w : Written, w.text = (layout.magnitude d).toList ∧ w.Denotes d := by
  have hpos : 0 < (Nat.toDigits 10 d.digits).length := Nat.length_toDigits_pos
  unfold Binary64.Layout.magnitude
  dsimp only
  split
  · split
    · obtain ⟨w, htext, hw⟩ := written_below_one d (by omega)
      refine ⟨w, ?_, hw⟩
      have hwidth : (Nat.toDigits 10 d.digits).length +
          (-(d.exponent + ((Nat.toDigits 10 d.digits).length : Int) - 1)).toNat - 1 = (-d.exponent).toNat := by omega
      rw [htext, hwidth]
      simp [toList_padZeros]
    · rename_i hpositive
      generalize hk : (d.exponent + ((Nat.toDigits 10 d.digits).length : Int) - 1 + 1).toNat = k
      rcases Int.lt_or_le d.exponent 0 with hneg | hnonneg
      · obtain ⟨w, htext, hw⟩ := @written_point d k (by omega) (by omega) (by omega)
        have hzeros : k - (Nat.toDigits 10 d.digits).length = 0 := by omega
        have hfraction : (Nat.toDigits 10 d.digits).drop k ≠ [] := by
          simp only [ne_eq, List.drop_eq_nil_iff]
          omega
        refine ⟨w, ?_, hw⟩
        simp [htext, hzeros, List.isEmpty_iff, hfraction]
      · obtain ⟨w, htext, hw⟩ := written_integer d hnonneg
        have hzeros : k - (Nat.toDigits 10 d.digits).length = d.exponent.toNat := by omega
        have htake : (Nat.toDigits 10 d.digits).take k = Nat.toDigits 10 d.digits := List.take_of_length_le (by omega)
        have hfraction : (Nat.toDigits 10 d.digits).drop k = [] := List.drop_of_length_le (by omega)
        refine ⟨w, ?_, hw⟩
        simp [htext, hzeros, htake, hfraction]
  · obtain ⟨w, htext, hw⟩ := written_scientific d (layout.exponentWidth -
      (Nat.toDigits 10 (d.exponent + ((Nat.toDigits 10 d.digits).length : Int) - 1).natAbs).length)
    refine ⟨w, ?_, hw⟩
    rw [htext]
    generalize hp : d.exponent + ((Nat.toDigits 10 d.digits).length : Int) - 1 = power
    have hexponent : toString power.natAbs = String.ofList (Nat.toDigits 10 power.natAbs) := rfl
    simp only [String.toList_append, toList_padZeros, hexponent, String.toList_ofList, String.length_ofList,
      List.isEmpty_iff]
    split <;> split <;> simp

/-- The text of a finite number is its sign and then a numeral that denotes its magnitude. -/
theorem text_written (layout : Binary64.Layout) {x : Binary64} (h : x.isFinite = true) :
    ∃ w : Written, (layout.text x).toList = (if x.isNegative then ['-'] else []) ++ w.text ∧
      w.numeral.isInteger = false ∧ w.numeral.toBinary64 = x.abs := by
  cases x with
  | infinity _ => cases h
  | nan => cases h
  | finite negative m e hc =>
    obtain ⟨d, hd, hreads⟩ := Binary64.shortest?_readsBack negative hc
    obtain ⟨w, htext, hform, hvalue⟩ := magnitude_written layout d
    refine ⟨w, ?_, hform, ?_⟩
    · simp only [Binary64.Layout.text, hd, String.toList_append, htext]
      cases negative <;> simp [Binary64.isNegative]
    · rw [hvalue, ← Binary64.ofDecimal_abs negative, hreads]

end JsonTables.Token
