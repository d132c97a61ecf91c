/-
  JsonTables.Proofs.Numeral.Denotation — the number that a text denotes, and the one it counts as.

  A numeral is a sign, digits with or without a point and a power of ten, and denotes a rational number by the
  places of its digits. Digits may be of any script, also of several. Behind a point there need be none if there are
  some in front of it.

  Proved:
  - `denotes_iff`: the texts that denote a number are those that are numerals, with their values.
  - `Value.number_of_text`: a text counts as a number if it denotes one, and as that number. Integers are exact, and
    binary numbers are nearest.
-/

import JsonTables.Proofs.Binary64.Nearest
import JsonTables.Proofs.Numeral.Recognition
import Mathlib.Data.Nat.Digits.Defs

namespace JsonTables

namespace Numeral

open Token Binary64

/-! ## What a text denotes -/

/-- The natural number of a row of digits, the ones last. -/
def natural (ds : List Char) : Nat := Nat.ofDigits 10 (ds.map Text.digitValue).reverse

/-- Digits and the number they denote. Where digits stand in front of a point, none need stand behind it. -/
inductive DigitsText : List Char → ℚ → Prop
  | whole {ws : List Char} : Decimals ws → DigitsText ws (natural ws)
  | point {ws fs : List Char} : Decimals ws → (∀ c ∈ fs, Text.isDecimal c = true) →
      DigitsText (ws ++ '.' :: fs) (natural ws + natural fs / 10 ^ fs.length)
  | fraction {fs : List Char} : Decimals fs → DigitsText ('.' :: fs) (natural fs / 10 ^ fs.length)

/-- A power of ten and its exponent, which is zero if none is written. -/
inductive PowerText : List Char → Int → Prop
  | absent : PowerText [] 0
  | power {e : Char} {ss ds : List Char} {negative : Bool} : e = 'e' ∨ e = 'E' → SignText ss negative → Decimals ds →
      PowerText (e :: (ss ++ ds)) (signed negative (natural ds))

/-- A numeral, whether it has a minus, and the number it denotes. -/
inductive Denotes : List Char → Bool → ℚ → Prop
  | mk {ss ms es : List Char} {negative : Bool} {q : ℚ} {e : Int} : SignText ss negative → DigitsText ms q →
      PowerText es e → Denotes (ss ++ (ms ++ es)) negative (withSign negative (q * 10 ^ e))

/-- The number that a numeral denotes by its parts. -/
def value (n : Numeral) : ℚ := withSign n.negative (n.significand * 10 ^ n.scale)

/-! ## Places of digits -/

theorem ofDigits_eq (ds : List Nat) : Text.ofDigits ds = Nat.ofDigits 10 ds.reverse := by
  induction ds using List.reverseRecOn with
  | nil => rfl
  | append_singleton ds d ih =>
    rw [Text.ofDigits, List.foldl_append, List.reverse_append, List.reverse_singleton, List.singleton_append,
      Nat.ofDigits_cons, ← ih, Nat.add_comm]
    rfl

theorem ofDigits_map_eq (ds : List Char) : Text.ofDigits (ds.map Text.digitValue) = natural ds := ofDigits_eq _

theorem natural_append (ws fs : List Char) : natural (ws ++ fs) = natural ws * 10 ^ fs.length + natural fs := by
  rw [natural, List.map_append, List.reverse_append, Nat.ofDigits_append, List.length_reverse, List.length_map]
  rw [← natural, ← natural]
  ring

/-- Digits in front of a point and behind it, as one number. -/
theorem natural_point (ws fs : List Char) :
    (natural (ws ++ fs) : ℚ) / 10 ^ fs.length = natural ws + natural fs / 10 ^ fs.length := by
  rw [natural_append]
  push_cast
  rw [add_div, mul_div_cancel_right₀ _ (by positivity)]

/-! ## The parts and their values -/

theorem PowerText.exists_exponent {es : List Char} {e : Int} (h : PowerText es e) :
    ∃ x, ExponentText es x ∧ x.getD 0 = e := by
  cases h with
  | absent => exact ⟨none, .absent, rfl⟩
  | power hletter hs hds =>
    cases hs with
    | absent => exact ⟨_, .digits hletter (.inl rfl) hds, by simp [signed, ofDigits_map_eq]⟩
    | plus => exact ⟨_, .digits hletter (.inr (.inr rfl)) hds, by simp [signed, ofDigits_map_eq]⟩
    | minus => exact ⟨_, .digits hletter (.inr (.inl rfl)) hds, by simp [signed, ofDigits_map_eq]⟩

theorem powerText_of_exponent {es : List Char} {x : Option Int} (h : ExponentText es x) : PowerText es (x.getD 0) := by
  cases h with
  | absent => exact .absent
  | @digits e sign ds hletter hsign hds =>
    rw [Option.getD_some, ofDigits_map_eq]
    rcases hsign with rfl | rfl | rfl
    · exact .power hletter .absent hds
    · exact .power hletter .minus hds
    · exact .power hletter .plus hds

theorem DigitsText.exists_point {ms : List Char} {q : ℚ} (h : DigitsText ms q) :
    ∃ ws ps fraction, ms = ws ++ ps ∧ (∀ c ∈ ws, Text.isDecimal c = true) ∧ PointText ps fraction ∧
      (ws ≠ [] ∨ fraction.getD [] ≠ []) ∧
      q = Text.ofDigits (ws.map Text.digitValue ++ fraction.getD []) / 10 ^ (fraction.getD []).length := by
  cases h with
  | whole hws =>
    refine ⟨ms, [], none, by simp, hws.2, .absent, .inl hws.1, ?_⟩
    simp [ofDigits_map_eq]
  | @point ws fs hws hfs =>
    refine ⟨ws, '.' :: fs, _, rfl, hws.2, .digits hfs, .inl hws.1, ?_⟩
    rw [Option.getD_some, ← List.map_append, ofDigits_map_eq, List.length_map, natural_point]
  | @fraction fs hfs =>
    refine ⟨[], '.' :: fs, _, rfl, by simp, .digits hfs.2, .inr (by simpa using hfs.1), ?_⟩
    rw [Option.getD_some, List.map_nil, List.nil_append, ofDigits_map_eq, List.length_map]

theorem digitsText_of_point {ws ps : List Char} {fraction : Option (List Nat)} (hw : ∀ c ∈ ws, Text.isDecimal c = true)
    (hp : PointText ps fraction) (hne : ws ≠ [] ∨ fraction.getD [] ≠ []) :
    DigitsText (ws ++ ps) (Text.ofDigits (ws.map Text.digitValue ++ fraction.getD []) / 10 ^ (fraction.getD []).length) := by
  cases hp with
  | absent =>
    have hws : ws ≠ [] := hne.resolve_right fun h => h rfl
    simpa [ofDigits_map_eq] using DigitsText.whole ⟨hws, hw⟩
  | @digits fs hfs =>
    rw [Option.getD_some, ← List.map_append, ofDigits_map_eq, List.length_map]
    by_cases hws : ws = []
    · subst hws
      exact .fraction ⟨by simpa using hne, hfs⟩
    · rw [natural_point]
      exact .point ⟨hws, hw⟩ hfs

/-! ## Numerals and their values -/

theorem magnitude_eq (n : Numeral) : (n.significand : ℚ) * 10 ^ n.scale =
    Text.ofDigits (n.whole ++ n.fraction.getD []) / 10 ^ (n.fraction.getD []).length * 10 ^ n.exponent.getD 0 := by
  rw [significand, scale, zpow_sub₀ (by decide), zpow_natCast]
  ring

/-- The texts that denote a number are the numerals. -/
theorem denotes_iff {cs : List Char} {negative : Bool} {q : ℚ} :
    Denotes cs negative q ↔ ∃ n, IsText cs n ∧ n.negative = negative ∧ n.value = q := by
  constructor
  · intro h
    cases h with
    | @mk ss ms es _ q e hs hm he =>
      obtain ⟨ws, ps, fraction, rfl, hw, hp, hne, rfl⟩ := hm.exists_point
      obtain ⟨x, hx, rfl⟩ := he.exists_exponent
      refine ⟨⟨negative, ws.map Text.digitValue, fraction, x⟩, ?_, rfl, ?_⟩
      · rw [List.append_assoc]
        exact .mk hs hw hp hx (by simpa [HasDigits] using hne)
      · rw [value, magnitude_eq]
  · rintro ⟨n, h, rfl, rfl⟩
    cases h with
    | @mk ss ws ps es negative fraction exponent hs hw hp hx hne =>
      rw [value, magnitude_eq, ← List.append_assoc ws]
      exact .mk hs (digitsText_of_point hw hp (by simpa [HasDigits] using hne)) (powerText_of_exponent hx)

theorem toInt_eq_value {n : Numeral} (h : n.isInteger = true) : (n.toInt : ℚ) = n.value := by
  simp only [isInteger, Bool.and_eq_true, Option.isNone_iff_eq_none] at h
  rw [value, magnitude_eq, h.1, h.2, toInt, withSign]
  cases n.negative <;> simp

theorem toBinary64_nearest (n : Numeral) : Nearest n.value n.toBinary64 := nearest_ofDecimal ..

end Numeral

namespace Value

open Numeral Token Binary64

/-- A text counts as a number exactly if it denotes one with the white space around it taken away. What is recognised
as a numeral can be converted. Without a point and without the letter of a power of ten the number is the integer
that is denoted, and otherwise the binary number that is nearest to what is denoted, with the sign that is written. -/
theorem number_of_text (s : String) :
    ((text s).number?.isSome = true ↔ ∃ negative q, Denotes (Text.trim s.toList) negative q) ∧
    (isNumeral s = true → (convert? (Text.stripped s)).isSome = true) ∧
    ∀ negative q, Denotes (Text.trim s.toList) negative q →
      ('.' ∉ s.toList ∧ 'e' ∉ s.toList ∧ 'E' ∉ s.toList → ∃ k : Int, (text s).number? = some (.int k) ∧ (k : ℚ) = q) ∧
      (¬('.' ∉ s.toList ∧ 'e' ∉ s.toList ∧ 'E' ∉ s.toList) →
        ∃ x, (text s).number? = some (.float x) ∧ Nearest q x ∧ x.isNegative = negative) := by
  have hmem {c : Char} (hc : Text.isBlank c = false) : c ∈ Text.trim s.toList ↔ c ∈ s.toList := by
    refine ⟨fun h => ?_, fun h => Text.mem_trim h hc⟩
    obtain ⟨front, back, hs, -⟩ := Text.exists_trim s.toList
    rw [hs]
    simp [h]
  have hform {n : Numeral} (h : IsText (Text.trim s.toList) n) :
      n.isInteger = true ↔ '.' ∉ s.toList ∧ 'e' ∉ s.toList ∧ 'E' ∉ s.toList := by
    rw [isInteger_iff h, hmem rfl, hmem rfl, hmem rfl]
  have hnumber {n : Numeral} (h : IsText (Text.trim s.toList) n) :
      (text s).number? = some (if n.isInteger then .int n.toInt else .float n.toBinary64) := by
    rw [number?, numberOfText?_eq, ofText?_eq_some_iff.mpr h, Option.map_some]
  refine ⟨?_, fun h => ?_, fun negative q h => ?_⟩
  · constructor
    · intro h
      rw [number?, numberOfText?_eq, Option.isSome_map, Option.isSome_iff_exists] at h
      obtain ⟨n, hn⟩ := h
      exact ⟨n.negative, n.value, denotes_iff.mpr ⟨n, ofText?_eq_some_iff.mp hn, rfl, rfl⟩⟩
    · rintro ⟨negative, q, h⟩
      obtain ⟨n, hn, -⟩ := denotes_iff.mp h
      rw [hnumber hn]
      rfl
  · obtain ⟨n, hn⟩ := isNumeral_iff.mp h
    rw [convert?_of_isText hn]
    rfl
  · obtain ⟨n, hn, rfl, rfl⟩ := denotes_iff.mp h
    rw [hnumber hn, ← hform hn]
    constructor
    · intro hinteger
      exact ⟨n.toInt, by rw [if_pos hinteger], toInt_eq_value hinteger⟩
    · intro hbinary
      refine ⟨n.toBinary64, by rw [if_neg hbinary], toBinary64_nearest n, ?_⟩
      rw [toBinary64, isNegative_ofDecimal]

/-- A numeral with all its parts and white space around it. -/
theorem number_of_text_scaled : (convert? (Text.stripped " -3.5e1\n")).isSome = true ∧
    ∃ x, (text " -3.5e1\n").number? = some (.float x) ∧ Nearest (-35) x ∧ x.isNegative = true := by
  have hdenotes : Denotes (Text.trim " -3.5e1\n".toList) true (-35) := by
    have hwhole : Decimals ['3'] := ⟨by simp, List.all_eq_true.mp rfl⟩
    have hfraction : ∀ c ∈ ['5'], Text.isDecimal c = true := List.all_eq_true.mp rfl
    have hpower : Decimals ['1'] := ⟨by simp, List.all_eq_true.mp rfl⟩
    have hparts := Denotes.mk .minus (.point hwhole hfraction) (.power (.inl rfl) .absent hpower)
    have hvalue : withSign true
        ((natural ['3'] + natural ['5'] / 10 ^ ['5'].length) * 10 ^ signed false (natural ['1'])) = (-35 : ℚ) := by
      have h1 : natural ['3'] = 3 := rfl
      have h2 : natural ['5'] = 5 := rfl
      have h3 : signed false (natural ['1']) = 1 := rfl
      rw [h1, h2, h3, withSign]
      norm_num
    rw [hvalue] at hparts
    exact hparts
  exact ⟨(number_of_text " -3.5e1\n").2.1 rfl, ((number_of_text " -3.5e1\n").2.2 true (-35) hdenotes).2 (by decide)⟩

/-- Behind a point that digits stand in front of there need be no digit. -/
theorem number_of_open_point :
    (∃ x, (text "1.").number? = some (.float x)) ∧
      ¬∃ ss ws ps es negative e, Text.trim "1.".toList = ss ++ (ws ++ (ps ++ es)) ∧ SignText ss negative ∧
        (Decimals ws ∧ ps = [] ∨ (Decimals ws ∨ ws = []) ∧ ∃ fs, ps = '.' :: fs ∧ Decimals fs) ∧ PowerText es e := by
  -- Without the open point every numeral ends with a digit.
  have hlast (cs ds : List Char) (hds : Decimals ds) : Text.trim "1.".toList ≠ cs ++ ds := by
    intro he
    have hpoint : (cs ++ ds).getLast? = some '.' := he ▸ rfl
    rw [List.getLast?_append_of_ne_nil _ hds.1] at hpoint
    exact absurd (hds.2 '.' (List.mem_of_getLast? hpoint)) (by decide)
  constructor
  · exact ⟨(Numeral.mk false [1] (some []) none).toBinary64, rfl⟩
  · rintro ⟨ss, ws, ps, es, negative, e, htext, -, hdigits, hpower⟩
    cases hpower with
    | @power letter sign ds _ _ _ hds => exact hlast (ss ++ (ws ++ (ps ++ letter :: sign))) ds hds (htext.trans (by simp))
    | absent =>
      rcases hdigits with ⟨hws, rfl⟩ | ⟨-, fs, rfl, hfs⟩
      · exact hlast ss ws hws (htext.trans (by simp))
      · exact hlast (ss ++ (ws ++ ['.'])) fs hfs (htext.trans (by simp))

end Value

end JsonTables
