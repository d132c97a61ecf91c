/-
  JsonTables.Proofs.Json.Numbers — a number in JSON text is read as the number, of the same kind.

  What is written of a number is a numeral in its JSON form: the whole part is a zero alone or begins with another
  digit. The reader takes such a numeral as far as it goes, so it takes all of it, if what stands behind does not go
  on with it. An integer has neither point nor exponent and a finite binary number has one of them, so the two are
  told apart. The rest are words.

  Proved:
  - `numeralPart_written`: what the reader takes of a numeral in front of something else.
  - `number_written`: what is written of a number.
  - `scalar?_number`: the number is read where it is written.
-/

import JsonTables.Json.Reader
import JsonTables.Json.Writer
import JsonTables.Proofs.Numeral

namespace JsonTables.Json

open Token Numeral

/-! ## Numerals -/

/-- What may stand behind a number: nothing that goes on with it. -/
def Ends (rest : List Char) : Prop := ∀ c ∈ rest.head?, c.isDigit = false ∧ c ≠ '.' ∧ c ≠ 'e' ∧ c ≠ 'E'

/-- The whole part is a zero alone, or begins with another digit. -/
def Plain (w : Written) : Prop := w.whole = ['0'] ∨ w.whole.head? ≠ some '0'

theorem head_exponent {w : Written} {rest : List Char} (h : Ends rest) :
    ∀ c ∈ (Written.exponentText w.exponent ++ rest).head?, c.isDigit = false ∧ c ≠ '.' := by
  intro c hc
  cases hx : w.exponent with
  | none =>
    rw [hx] at hc
    exact ⟨(h c hc).1, (h c hc).2.1⟩
  | some x =>
    rw [hx] at hc
    obtain rfl : 'e' = c := by simpa [Written.exponentText] using hc
    decide

theorem exponentPart_written {w : Written} {rest : List Char} (h : Ends rest) :
    exponentPart (Written.exponentText w.exponent ++ rest) = Written.exponentText w.exponent := by
  cases hx : w.exponent with
  | none =>
    cases rest with
    | nil => rfl
    | cons c rest =>
      obtain ⟨-, -, hlower, hupper⟩ := h c rfl
      simp [Written.exponentText, exponentPart, hlower, hupper]
  | some x =>
    obtain ⟨negative, ds⟩ := x
    obtain ⟨hne, hdigits⟩ := w.exponent_digits _ hx
    have hread : asciiDigits (ds ++ rest) = ds := (takeWhile_append_stop hdigits fun c hc => (h c hc).1).1
    cases negative <;> simp [Written.exponentText, exponentPart, hread, hne]

theorem fractionPart_written {w : Written} {rest : List Char} (h : Ends rest) :
    fractionPart (Written.fractionText w.fraction ++ (Written.exponentText w.exponent ++ rest)) =
      Written.fractionText w.fraction := by
  have hhead := head_exponent (w := w) h
  cases hx : w.fraction with
  | none =>
    rw [Written.fractionText, List.nil_append]
    unfold fractionPart
    split
    · rename_i heq
      rw [heq] at hhead
      exact absurd rfl (hhead '.' rfl).2
    · rfl
  | some ds =>
    obtain ⟨hne, hdigits⟩ := w.fraction_digits ds hx
    have hread : asciiDigits (ds ++ (Written.exponentText w.exponent ++ rest)) = ds :=
      (takeWhile_append_stop hdigits fun c hc => (hhead c hc).1).1
    simp [Written.fractionText, fractionPart, hread, hne]

theorem head_fraction {w : Written} {rest : List Char} (h : Ends rest) :
    ∀ c ∈ (Written.fractionText w.fraction ++ (Written.exponentText w.exponent ++ rest)).head?, c.isDigit = false := by
  intro c hc
  cases hx : w.fraction with
  | none =>
    rw [hx] at hc
    exact (head_exponent h c hc).1
  | some ds =>
    rw [hx] at hc
    obtain rfl : '.' = c := by simpa [Written.fractionText] using hc
    rfl

theorem wholePart_written {w : Written} (hw : Plain w) {rest : List Char} (h : ∀ c ∈ rest.head?, c.isDigit = false) :
    wholePart (w.whole ++ rest) = w.whole := by
  rcases hw with hw | hw
  · rw [hw]
    rfl
  · unfold wholePart
    split
    · rename_i heq
      obtain ⟨c, cs, hcs⟩ := List.exists_cons_of_ne_nil w.whole_digits.1
      rw [hcs] at heq hw
      cases heq
      exact absurd rfl hw
    · exact (takeWhile_append_stop w.whole_digits.2 h).1

/-- What the reader takes of a written numeral is the numeral. -/
theorem numeralPart_written (negative : Bool) {w : Written} (hw : Plain w) {rest : List Char} (h : Ends rest) :
    numeralPart (signText negative ++ w.text ++ rest) = signText negative ++ w.text := by
  have hsign : ((signText negative ++ w.text ++ rest).take 1).filter (· = '-') = signText negative := by
    cases negative with
    | true => rfl
    | false =>
      obtain ⟨c, hc, hdigit⟩ := w.head_text
      obtain ⟨cs, hcs⟩ := List.head?_eq_some_iff.mp hc
      have hne : c ≠ '-' := by
        rintro rfl
        cases hdigit
      simp [signText, hcs, hne]
  have hdrop : (signText negative ++ w.text ++ rest).drop (signText negative).length =
      w.whole ++ (Written.fractionText w.fraction ++ (Written.exponentText w.exponent ++ rest)) := by
    rw [List.append_assoc, List.drop_left]
    simp [Written.text]
  have hwhole := wholePart_written hw (head_fraction (w := w) h)
  have hne : w.whole.isEmpty = false := by simp [w.whole_digits.1]
  simp only [numeralPart, hsign, hdrop, hwhole, hne, Bool.false_eq_true, if_false, List.drop_left,
    fractionPart_written h, exponentPart_written h]
  rw [List.append_assoc, List.append_assoc, Written.text]

/-! ## Whole parts -/

theorem head_toDigits_ne_zero {n : Nat} (hn : 0 < n) : (Nat.toDigits 10 n).head? ≠ some '0' := by
  induction n using Nat.strongRecOn with
  | ind n ih =>
    rcases Nat.lt_or_ge n 10 with hlt | hge
    · rw [Nat.toDigits_of_lt_base hlt, List.head?_cons, ne_eq, Option.some.injEq, Nat.digitChar_eq_zero]
      omega
    · rw [Nat.toDigits_of_base_le (by decide) hge, List.head?_append_of_ne_nil _ Nat.toDigits_ne_nil]
      exact ih (n / 10) (by omega) (by omega)

theorem plain_natural (n : Nat) : Plain (Written.natural n) := by
  rcases Nat.eq_zero_or_pos n with rfl | hn
  · exact .inl rfl
  · exact .inr (head_toDigits_ne_zero hn)

/-- What follows on a zero at the beginning is no digit. -/
theorem plain_of_text {w : Written} (h : ∀ c rest, w.text = '0' :: c :: rest → c.isDigit = false) : Plain w := by
  obtain ⟨c, cs, hcs⟩ := List.exists_cons_of_ne_nil w.whole_digits.1
  by_cases hc : c = '0'
  · subst hc
    cases cs with
    | nil => exact .inl hcs
    | cons d cs =>
      have hdigit : d.isDigit = true := w.whole_digits.2 d (by simp [hcs])
      rw [h d _ (by simp [Written.text, hcs]; rfl)] at hdigit
      cases hdigit
  · exact .inr (by simpa [hcs] using hc)

/-- Zero has no power of ten. -/
def Reduced (d : Binary64.Decimal) : Prop := d.digits = 0 → d.exponent = 0

/-- A magnitude that begins with a zero goes on with a point or a power of ten. -/
theorem zero_magnitude (layout : Binary64.Layout) {d : Binary64.Decimal} (hd : Reduced d) {c : Char} {rest : List Char}
    (h : (layout.magnitude d).toList = '0' :: c :: rest) : c.isDigit = false := by
  obtain ⟨x, xs, hxs⟩ := List.exists_cons_of_ne_nil (@Nat.toDigits_ne_nil d.digits 10)
  unfold Binary64.Layout.magnitude at h
  dsimp only at h
  split at h
  · split at h
    · obtain ⟨rfl, -⟩ : '.' = c ∧ _ := by simpa using h
      rfl
    · rename_i hpositive
      obtain ⟨k, hk⟩ : ∃ k, (d.exponent + ((Nat.toDigits 10 d.digits).length : Int) - 1 + 1).toNat = k + 1 :=
        ⟨_, (Nat.succ_pred_eq_of_pos (by omega)).symm⟩
      rw [hk, hxs] at h
      obtain ⟨rfl, -⟩ : x = '0' ∧ _ := by simpa using h
      have hzero : d.digits = 0 := by
        by_contra hne
        exact head_toDigits_ne_zero (Nat.pos_of_ne_zero hne) (by rw [hxs]; rfl)
      rw [hzero, hd hzero] at hk
      rw [hzero, Nat.toDigits_zero] at hxs
      obtain ⟨-, rfl⟩ := List.cons.inj hxs
      obtain rfl : k = 0 := by simpa using hk.symm
      obtain ⟨rfl, -⟩ : '.' = c ∧ _ := by simpa using h
      rfl
  · rw [hxs] at h
    split at h
    · split at h
      · obtain ⟨-, rfl, -⟩ : x = '0' ∧ 'e' = c ∧ _ := by simpa using h
        rfl
      · obtain ⟨-, rfl, -⟩ : x = '0' ∧ 'e' = c ∧ _ := by simpa using h
        rfl
    · obtain ⟨-, rfl, -⟩ : x = '0' ∧ '.' = c ∧ _ := by simpa using h
      rfl

theorem reduced_shortest {negative : Bool} {m : Nat} {e : Int} {hc : Binary64.Canonical m e} {d : Binary64.Decimal}
    (h : (Binary64.finite negative m e hc).shortest? = some d)
    (hreads : Binary64.ofDecimal negative d.digits d.exponent = .finite negative m e hc) : Reduced d := by
  intro hzero
  have hm : m = 0 := by
    rw [hzero] at hreads
    exact (Binary64.finite.inj hreads).2.1.symm
  rw [Binary64.shortest?, if_pos hm] at h
  exact congrArg Binary64.Decimal.exponent (Option.some.inj h).symm

/-- The text of a finite number is a plain numeral that denotes it. -/
theorem text_plain (layout : Binary64.Layout) {x : Binary64} (h : x.isFinite = true) :
    ∃ w : Written, Plain w ∧ (layout.text x).toList = signText x.isNegative ++ w.text ∧
      w.numeral.isInteger = false ∧ { w.numeral with negative := x.isNegative }.toBinary64 = x := by
  obtain ⟨w, htext, hform, hvalue⟩ := text_written layout h
  cases x with
  | infinity _ => cases h
  | nan => cases h
  | finite negative m e hc =>
    obtain ⟨d, hd, hreads⟩ := Binary64.shortest?_readsBack negative hc
    have hmagnitude : w.text = (layout.magnitude d).toList := by
      refine List.append_cancel_left (htext.symm.trans ?_)
      cases negative <;> simp [Binary64.Layout.text, hd, Binary64.isNegative]
    refine ⟨w, plain_of_text fun c rest hc => ?_, htext, hform, Binary64.ofDecimal_of_abs (by simp) hvalue⟩
    exact zero_magnitude layout (reduced_shortest hd hreads) (hmagnitude ▸ hc)

/-! ## Numbers as values -/

theorem words_written (negative : Bool) (w : Written) (rest : List Char) :
    (words.find? fun word => word.1.toList.isPrefixOf (signText negative ++ w.text ++ rest)) = none := by
  obtain ⟨c, hc, hdigit⟩ := w.head_text
  obtain ⟨cs, hcs⟩ := List.head?_eq_some_iff.mp hc
  have hne : ∀ d, d.isDigit = false → d ≠ c := by
    rintro d hd rfl
    rw [hdigit] at hd
    cases hd
  cases negative <;>
    simp [words, signText, hcs, hne 'n' rfl, hne 't' rfl, hne 'f' rfl, hne 'N' rfl, hne 'I' rfl, hne '-' rfl]

theorem scalar?_written (negative : Bool) {w : Written} (hw : Plain w) {rest : List Char} (h : Ends rest) :
    scalar? (signText negative ++ w.text ++ rest) =
      some (.number (numberOf (signText negative ++ w.text)), (signText negative ++ w.text).length) := by
  obtain ⟨c, cs, hcs⟩ := List.exists_cons_of_ne_nil (show signText negative ++ w.text ≠ [] by
    simp [Written.text, w.whole_digits.1])
  rw [scalar?, words_written, numeralPart_written negative hw h, hcs]

/-- A number is written as a plain numeral that denotes it, unless it is one that JSON has no form for. -/
theorem number_written (n : Number) :
    (∃ negative w, Plain w ∧ (number n).toList = signText negative ++ w.text ∧
      numberOf (signText negative ++ w.text) = n) ∨ n = .float .nan ∨ ∃ negative, n = .float (.infinity negative) := by
  cases n with
  | int k =>
    obtain ⟨n, hread, hform, hvalue⟩ := ofText?_toString k
    rw [toString_eq, ofText?_written] at hread
    obtain rfl := Option.some.inj hread
    refine .inl ⟨decide (k < 0), Written.natural k.natAbs, plain_natural _, ?_, ?_⟩
    · rw [number, toString_eq, String.toList_ofList]
    · rw [numberOf, read_written, if_pos hform, hvalue]
  | float x =>
    by_cases hx : x.isFinite = true
    · obtain ⟨w, hw, htext, hform, hvalue⟩ := text_plain numberLayout hx
      have hfloat : { w.numeral with negative := x.isNegative }.isInteger = false := hform
      refine .inl ⟨x.isNegative, w, hw, htext, ?_⟩
      rw [numberOf, read_written, if_neg (by simp [hfloat]), hvalue]
    · cases x with
      | nan => exact .inr (.inl rfl)
      | infinity negative => exact .inr (.inr ⟨negative, rfl⟩)
      | finite negative m e hc => exact absurd rfl hx

/-- A written number is read as itself. -/
theorem scalar?_number (n : Number) {rest : List Char} (h : Ends rest) :
    scalar? ((number n).toList ++ rest) = some (.number n, (number n).toList.length) := by
  rcases number_written n with ⟨negative, w, hw, htext, hvalue⟩ | rfl | ⟨negative, rfl⟩
  · rw [htext, scalar?_written negative hw h, hvalue]
  · rfl
  · cases negative <;> rfl

/-- A written number begins with a digit, a minus sign or the word for what JSON has no form for. -/
theorem head_number (n : Number) :
    ∃ c cs, (number n).toList = c :: cs ∧ (c.isDigit = true ∨ c = '-' ∨ c = 'N' ∨ c = 'I') := by
  rcases number_written n with ⟨negative, w, -, htext, -⟩ | rfl | ⟨negative, rfl⟩
  · cases negative with
    | true => exact ⟨'-', w.text, htext, .inr (.inl rfl)⟩
    | false =>
      obtain ⟨c, hc, hdigit⟩ := w.head_text
      obtain ⟨cs, hcs⟩ := List.head?_eq_some_iff.mp hc
      exact ⟨c, cs, htext.trans hcs, .inl hdigit⟩
  · exact ⟨'N', _, rfl, .inr (.inr (.inl rfl))⟩
  · cases negative with
    | true => exact ⟨'-', _, rfl, .inr (.inl rfl)⟩
    | false => exact ⟨'I', _, rfl, .inr (.inr (.inr rfl))⟩

theorem isBlank_of_mem_number {n : Number} {c : Char} (hc : c ∈ (number n).toList) : Text.isBlank c = false := by
  rcases number_written n with ⟨negative, w, -, htext, -⟩ | rfl | ⟨negative, rfl⟩
  · rw [htext] at hc
    rcases List.mem_append.mp hc with hc | hc
    · cases negative with
      | true => rw [List.mem_singleton.mp hc]; rfl
      | false => cases hc
    · exact isBlank_of_mem_text w hc
  · have hword : (number (.float .nan)).toList.all (fun c => !Text.isBlank c) := by decide +kernel
    simpa using List.all_eq_true.mp hword c hc
  · have hword : (number (.float (.infinity negative))).toList.all (fun c => !Text.isBlank c) := by
      cases negative <;> decide +kernel
    simpa using List.all_eq_true.mp hword c hc

end JsonTables.Json
