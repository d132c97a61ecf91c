/-
  JsonTables.Proofs.Numeral.Recognition — which texts are numerals, and that these can be converted.

  A text is recognised with the white space around it still there; it is trimmed and converted after that, and the
  conversion reads it once more from the start. Both scans take the same parts: none of them can begin with what
  ends the one before, and white space belongs to none.

  Proved:
  - `isNumeral_iff`, `ofText?_eq_some_iff`: the texts that are recognised, and what is read of them.
  - `isInteger_iff`: a numeral is that of an integer if it holds no point and no letter.
  - `Value.convert?_of_isText`: what is recognised can be converted.
  - `Value.numberOfText?_eq`: the number of a text is that of the numeral that is read of it.
-/

import JsonTables.Proofs.Text.Trim
import JsonTables.Proofs.Token.Spelling
import JsonTables.Value.Coercion

namespace JsonTables

namespace Numeral

open Token

/-! ## The form of a numeral -/

/-- A sign as it is written, and whether it is a minus. -/
inductive SignText : List Char → Bool → Prop
  | absent : SignText [] false
  | plus : SignText ['+'] false
  | minus : SignText ['-'] true

/-- A point with the digits behind it, if any, and their values. -/
inductive PointText : List Char → Option (List Nat) → Prop
  | absent : PointText [] none
  | digits {fs : List Char} : (∀ c ∈ fs, Text.isDecimal c = true) → PointText ('.' :: fs) (some (fs.map Text.digitValue))

/-- Whether there is a digit in front of the point or behind it. -/
def HasDigits (n : Numeral) : Prop := n.whole ≠ [] ∨ n.fraction.getD [] ≠ []

/-- A numeral as it is written. -/
inductive IsText : List Char → Numeral → Prop
  | mk {ss ws ps es : List Char} {negative : Bool} {fraction : Option (List Nat)} {exponent : Option Int} :
      SignText ss negative → (∀ c ∈ ws, Text.isDecimal c = true) → PointText ps fraction → ExponentText es exponent →
      HasDigits ⟨negative, ws.map Text.digitValue, fraction, exponent⟩ →
      IsText (ss ++ (ws ++ (ps ++ es))) ⟨negative, ws.map Text.digitValue, fraction, exponent⟩

/-! ## The parts of a text -/

theorem sign_text {ss cs : List Char} {negative : Bool} (hs : SignText ss negative)
    (hcs : ∀ c ∈ cs.head?, c ≠ '-' ∧ c ≠ '+') : sign (ss ++ cs) = (negative, cs) := by
  cases hs with
  | absent =>
    rw [List.nil_append]
    unfold sign
    split
    · exact absurd rfl (hcs _ rfl).1
    · exact absurd rfl (hcs _ rfl).2
    · rfl
  | plus => rfl
  | minus => rfl

theorem exists_sign (cs : List Char) : ∃ ss, cs = ss ++ (sign cs).2 ∧ SignText ss (sign cs).1 := by
  unfold sign
  split
  · exact ⟨['-'], rfl, .minus⟩
  · exact ⟨['+'], rfl, .plus⟩
  · exact ⟨[], rfl, .absent⟩

theorem fraction?_text {ps rest : List Char} {fraction : Option (List Nat)} (hp : PointText ps fraction)
    (hdigit : NoDigit rest) (hpoint : ∀ c ∈ rest.head?, c ≠ '.') : fraction? (ps ++ rest) = (fraction, rest) := by
  cases hp with
  | absent =>
    rw [List.nil_append]
    unfold fraction?
    split
    · exact absurd rfl (hpoint _ rfl)
    · rfl
  | digits hfs => simp [fraction?, digits_of_forall hfs hdigit]

theorem exists_point (cs : List Char) : ∃ ps, cs = ps ++ (fraction? cs).2 ∧ PointText ps (fraction? cs).1 := by
  unfold fraction?
  split
  · rename_i rest
    obtain ⟨ds, behind, hrest, -, hds, hread⟩ := exists_digits rest
    rw [hread]
    exact ⟨'.' :: ds, by rw [hrest]; rfl, .digits hds⟩
  · exact ⟨[], rfl, .absent⟩

/-- White space stands in front, or nothing at all. -/
def EndsHere (rest : List Char) : Prop := ∀ c ∈ rest.head?, Text.isBlank c = true

/-- No part of a numeral begins with white space. -/
theorem EndsHere.ne {rest : List Char} (h : EndsHere rest) {d : Char} (hd : Text.isBlank d = false) :
    ∀ c ∈ rest.head?, c ≠ d := by
  rintro c hc rfl
  rw [h c hc] at hd
  cases hd

theorem EndsHere.noDigit {rest : List Char} (h : EndsHere rest) : NoDigit rest := by
  intro c hc
  by_contra hdigit
  exact h.ne (isBlank_of_isDecimal ((Bool.not_eq_false _).mp hdigit)) c hc rfl

theorem EndsHere.opensExponent {rest : List Char} (h : EndsHere rest) : opensExponent rest = false := by
  cases rest with
  | nil => rfl
  | cons c rest =>
    have hlower := h.ne (d := 'e') rfl c rfl
    have hupper := h.ne (d := 'E') rfl c rfl
    simp [Token.opensExponent, hlower, hupper]

theorem head_exponent {es rest : List Char} {exponent : Option Int} (he : ExponentText es exponent)
    (hrest : EndsHere rest) {d : Char} (hlower : d ≠ 'e') (hupper : d ≠ 'E') (hblank : Text.isBlank d = false) :
    ∀ c ∈ (es ++ rest).head?, c ≠ d := by
  cases he with
  | absent => exact hrest.ne hblank
  | digits hletter =>
    intro c hc
    obtain rfl := Option.some.inj hc
    rcases hletter with rfl | rfl
    · exact hlower.symm
    · exact hupper.symm

theorem noDigit_point {ps rest : List Char} {fraction : Option (List Nat)} (hp : PointText ps fraction)
    (hrest : NoDigit rest) : NoDigit (ps ++ rest) := by
  cases hp with
  | absent => exact hrest
  | digits =>
    intro c hc
    obtain rfl := Option.some.inj hc
    rfl

/-- Behind the sign of a numeral stands a digit or the point. -/
theorem head_digits {ws ps : List Char} {fraction : Option (List Nat)} (hw : ∀ c ∈ ws, Text.isDecimal c = true)
    (hp : PointText ps fraction) (hne : ws ≠ [] ∨ fraction.getD [] ≠ []) (rest : List Char) :
    ∀ c ∈ (ws ++ (ps ++ rest)).head?, c ≠ '-' ∧ c ≠ '+' := by
  intro c hc
  cases ws with
  | cons w ws =>
    obtain rfl := Option.some.inj hc
    have hdigit := hw _ List.mem_cons_self
    constructor
    · rintro rfl
      cases hdigit
    · rintro rfl
      cases hdigit
  | nil =>
    cases hp with
    | absent => exact absurd rfl (hne.resolve_left fun h => h rfl)
    | digits =>
      obtain rfl := Option.some.inj hc
      exact ⟨by decide, by decide⟩

/-! ## Reading -/

/-- A numeral that is written is read, up to the white space behind it. -/
theorem IsText.read {cs rest : List Char} {n : Numeral} (h : IsText cs n) (hrest : EndsHere rest) :
    read (cs ++ rest) = (n, rest) := by
  cases h with
  | @mk ss ws ps es negative fraction exponent hs hw hp he hne =>
    have hexponent := exponent?_text he (fun _ => hrest.noDigit) fun _ => hrest.opensExponent
    have hdigit := noDigit_exponent he hrest.noDigit
    have hfraction := fraction?_text hp hdigit (head_exponent he hrest (by decide) (by decide) rfl)
    have hwhole := digits_of_forall hw (noDigit_point hp hdigit)
    have hsign := sign_text hs (head_digits hw hp (by simpa [HasDigits] using hne) (es ++ rest))
    simp only [Numeral.read, List.append_assoc, hsign, hwhole, hfraction, hexponent]

/-- What is read of any text is a numeral as it is written, if it has a digit. -/
theorem exists_isText (cs : List Char) (h : (read cs).1.HasDigits) :
    ∃ front, cs = front ++ (read cs).2 ∧ IsText front (read cs).1 := by
  obtain ⟨ss, hss, hs⟩ := exists_sign cs
  obtain ⟨ws, behind, hws, -, hw, hread⟩ := exists_digits (sign cs).2
  obtain ⟨ps, hps, hp⟩ := exists_point behind
  obtain ⟨es, rest, hes, he, hrest, -, -⟩ := exists_exponent (fraction? behind).2
  have hall : Numeral.read cs = (⟨(sign cs).1, ws.map Text.digitValue, (fraction? behind).1,
      (exponent? (fraction? behind).2).1⟩, rest) := by
    rw [Numeral.read]
    simp only [hread, hrest]
  rw [hall] at h ⊢
  refine ⟨ss ++ (ws ++ (ps ++ es)), ?_, .mk hs hw hp he h⟩
  rw [hss, hws, hps, hes]
  simp

theorem IsText.hasDigits {cs : List Char} {n : Numeral} (h : IsText cs n) : n.HasDigits := by
  cases h with
  | mk _ _ _ _ hdigits => exact hdigits

/-- No white space stands in a numeral. -/
theorem IsText.isBlank_of_mem {cs : List Char} {n : Numeral} (h : IsText cs n) {c : Char} (hc : c ∈ cs) :
    Text.isBlank c = false := by
  cases h with
  | @mk ss ws ps es _ _ _ hs hw hp he _ =>
    simp only [List.mem_append] at hc
    rcases hc with hc | hc | hc | hc
    · cases hs with
      | absent => cases hc
      | plus => exact (List.mem_singleton.mp hc) ▸ rfl
      | minus => exact (List.mem_singleton.mp hc) ▸ rfl
    · exact isBlank_of_isDecimal (hw c hc)
    · cases hp with
      | absent => cases hc
      | digits hfs =>
        rcases List.mem_cons.mp hc with rfl | hc
        · rfl
        · exact isBlank_of_isDecimal (hfs c hc)
    · cases he with
      | absent => cases hc
      | digits hletter hsign hds =>
        rcases List.mem_cons.mp hc with rfl | hc
        · rcases hletter with rfl | rfl <;> rfl
        · rcases List.mem_append.mp hc with hc | hc
          · rcases hsign with rfl | rfl | rfl
            · cases hc
            · exact (List.mem_singleton.mp hc) ▸ rfl
            · exact (List.mem_singleton.mp hc) ▸ rfl
          · exact isBlank_of_isDecimal (hds.2 c hc)

/-! ## Recognition -/

/-- The search for the digits goes the way that reading goes. -/
theorem behindDigits?_eq (cs : List Char) : behindDigits? cs =
    if (digits cs).1 = [] ∧ (fraction? (digits cs).2).1.getD [] = [] then none else some (fraction? (digits cs).2).2 := by
  unfold behindDigits?
  rcases hcs : digits cs with ⟨ds, rest⟩
  by_cases hpoint : ∃ more, rest = '.' :: more
  · obtain ⟨more, rfl⟩ := hpoint
    rcases hmore : digits more with ⟨fs, behind⟩
    cases ds <;> cases fs <;> simp [fraction?, hmore]
  · have hnone : fraction? rest = (none, rest) := by
      unfold fraction?
      split
      · exact absurd ⟨_, rfl⟩ hpoint
      · rfl
    cases ds with
    | nil =>
      split
      · exact absurd ⟨_, (Prod.mk.inj ‹_›).2⟩ hpoint
      · simp [hnone]
      · simp_all
      · simp_all
    | cons d ds =>
      split
      · simp_all
      · simp_all
      · exact absurd ⟨_, (Prod.mk.inj ‹_›).2⟩ hpoint
      · simp_all

theorem isNumeral_iff_read (s : String) : isNumeral s = true ↔
    (read (Text.trimStart s.toList)).1.HasDigits ∧ ∀ c ∈ (read (Text.trimStart s.toList)).2, Text.isBlank c = true := by
  rw [isNumeral, behindDigits?_eq]
  by_cases hnone : (digits (sign (Text.trimStart s.toList)).2).1 = [] ∧
      (fraction? (digits (sign (Text.trimStart s.toList)).2).2).1.getD [] = []
  · rw [if_pos hnone]
    simp [HasDigits, Numeral.read, hnone]
  · rw [if_neg hnone]
    simp only [HasDigits, Numeral.read, List.all_eq_true]
    exact ⟨fun h => ⟨not_and_or.mp hnone, h⟩, fun h => h.2⟩

/-- The texts that are recognised: without the white space around them they are numerals as they are written. -/
theorem isNumeral_iff {s : String} : isNumeral s = true ↔ ∃ n, IsText (Text.trim s.toList) n := by
  rw [isNumeral_iff_read]
  constructor
  · rintro ⟨hdigits, hblank⟩
    obtain ⟨front, hfront, htext⟩ := exists_isText _ hdigits
    refine ⟨(read (Text.trimStart s.toList)).1, ?_⟩
    have htrim : Text.trim s.toList = front := by
      rw [← Text.trim_trimStart, hfront, Text.trim_append_right hblank,
        Text.trim_of_forall fun c hc => htext.isBlank_of_mem hc]
    rwa [htrim]
  · rintro ⟨n, h⟩
    obtain ⟨back, hback, hblank⟩ := Text.exists_end Text.isBlank (Text.trimStart s.toList)
    have hread := h.read (show EndsHere back from fun c hc => hblank c (List.mem_of_head? hc))
    rw [hback]
    rw [Text.trim, Text.trimEnd] at hread h
    rw [hread]
    exact ⟨h.hasDigits, hblank⟩

theorem ofText?_eq_some_iff {s : String} {n : Numeral} : ofText? s = some n ↔ IsText (Text.trim s.toList) n := by
  unfold ofText?
  constructor
  · intro h
    split at h
    · rename_i m hread
      split at h
      · cases h
      · rename_i hdigits
        obtain rfl := Option.some.inj h
        have hsome : (read (Text.trim s.toList)).1.HasDigits := by
          rw [hread]
          simpa [HasDigits, imp_iff_not_or] using hdigits
        obtain ⟨front, hfront, htext⟩ := exists_isText _ hsome
        rw [hread] at hfront htext
        rwa [hfront, List.append_nil]
    · cases h
  · intro h
    have hread := h.read (show EndsHere [] by simp [EndsHere])
    rw [List.append_nil] at hread
    rw [hread]
    exact if_neg (by simpa [HasDigits, imp_iff_not_or] using h.hasDigits)

/-- A numeral is that of an integer if it holds neither a point nor the letter of a power of ten. -/
theorem isInteger_iff {cs : List Char} {n : Numeral} (h : IsText cs n) :
    n.isInteger = true ↔ '.' ∉ cs ∧ 'e' ∉ cs ∧ 'E' ∉ cs := by
  cases h with
  | @mk ss ws ps es negative fraction exponent hs hw hp he _ =>
    constructor
    · intro hform
      have hnot {c : Char} (hminus : c ≠ '-') (hplus : c ≠ '+') (hdigit : Text.isDecimal c = false) :
          c ∉ ss ++ (ws ++ (ps ++ es)) := by
        simp only [isInteger, Bool.and_eq_true, Option.isNone_iff_eq_none] at hform
        obtain ⟨rfl, rfl⟩ := hform
        cases hp
        cases he
        simp only [List.append_nil, List.mem_append, not_or]
        constructor
        · cases hs with
          | absent => exact List.not_mem_nil
          | plus => simpa using hplus
          | minus => simpa using hminus
        · intro hmem
          rw [hw c hmem] at hdigit
          cases hdigit
      exact ⟨hnot (by decide) (by decide) rfl, hnot (by decide) (by decide) rfl, hnot (by decide) (by decide) rfl⟩
    · rintro ⟨hpoint, hlower, hupper⟩
      cases hp with
      | digits => exact absurd (by simp) hpoint
      | absent =>
        cases he with
        | absent => rfl
        | digits hletter =>
          rcases hletter with rfl | rfl
          · exact absurd (by simp) hlower
          · exact absurd (by simp) hupper

end Numeral

namespace Value

open Numeral

/-- What is recognised can be converted, to the number of the kind that is written. -/
theorem convert?_of_isText {s : String} {n : Numeral} (h : IsText (Text.trim s.toList) n) :
    convert? (Text.stripped s) = some (if n.isInteger then .int n.toInt else .float n.toBinary64) := by
  have hread : ofText? (Text.stripped s) = some n := by
    rw [ofText?_eq_some_iff, Text.stripped, String.toList_ofList, Text.trim_trim]
    exact h
  have hform : (Text.stripped s).toList.any (fun c => c = '.' || c = 'e' || c = 'E') = !n.isInteger := by
    rw [Text.stripped, String.toList_ofList, Bool.eq_iff_iff, Bool.not_eq_true', ← Bool.not_eq_true, isInteger_iff h]
    simp only [List.any_eq_true, Bool.or_eq_true, decide_eq_true_eq]
    grind
  rw [convert?, hform, binary64OfText?, integerOfText?, hread]
  cases hinteger : n.isInteger with
  | true => simp [hinteger]
  | false => simp

/-- The number of a text is that of the numeral that is read of it. -/
theorem numberOfText?_eq (s : String) :
    numberOfText? s = (ofText? s).map fun n => if n.isInteger then .int n.toInt else .float n.toBinary64 := by
  rw [numberOfText?]
  split
  · rename_i h
    obtain ⟨n, hn⟩ := isNumeral_iff.mp h
    rw [convert?_of_isText hn, ofText?_eq_some_iff.mpr hn, Option.map_some]
  · rename_i h
    cases hread : ofText? s with
    | none => rfl
    | some n => exact absurd (isNumeral_iff.mpr ⟨n, ofText?_eq_some_iff.mp hread⟩) h

end Value

end JsonTables
