/-
  JsonTables.Proofs.Json.Strings — a string in JSON text is read as its characters.

  A character is written in one of four ways: behind a backslash, as it is, by the number of one 16-bit unit, or by
  the numbers of two. Of each the reader makes the character again. It wants something to stand behind four digits,
  and within a string the closing quote does.

  Proved:
  - `escapeChar_cases`: the four ways.
  - `stringTail_escapeChar`: one character.
  - `stringTail_written`: all of a string up to its closing quote.
-/

import JsonTables.Json.Reader
import JsonTables.Json.Writer
import Mathlib.Tactic.IntervalCases

namespace JsonTables.Json

/-! ## Escapes by number -/

theorem hexValue?_digitChar {n : Nat} (h : n < 16) : hexValue? n.digitChar = some n := by
  interval_cases n <;> rfl

theorem hexDigits_four (n : Nat) : Text.hexDigits 4 n =
    [(n / 4096 % 16).digitChar, (n / 256 % 16).digitChar, (n / 16 % 16).digitChar, (n % 16).digitChar] := by
  simp [Text.hexDigits, List.range, List.range.loop]

theorem unit?_hexDigits {n : Nat} (h : n < 0x10000) {rest : List Char} (hrest : rest ≠ []) :
    unit? (Text.hexDigits 4 n ++ rest) = some n := by
  obtain ⟨c, rest, rfl⟩ := List.exists_cons_of_ne_nil hrest
  have hlt (k : Nat) : k % 16 < 16 := Nat.mod_lt _ (by decide)
  rw [hexDigits_four]
  simp only [List.cons_append, List.nil_append, unit?, hexValue?_digitChar (hlt _), Option.bind_eq_bind,
    Option.bind_some, Option.pure_def, Option.some.injEq]
  omega

theorem drop_hexDigits (n : Nat) (rest : List Char) : (Text.hexDigits 4 n ++ rest).drop 4 = rest := by
  rw [hexDigits_four]
  rfl

/-- The escape of a unit that is no half of a pair. -/
theorem escape_unit {n : Nat} (hlt : n < 0x10000) (hhigh : isHighUnit n = false) (hlow : isLowUnit n = false)
    {rest : List Char} (hrest : rest ≠ []) :
    escape ('u' :: (Text.hexDigits 4 n ++ rest)) = .ok (Char.ofNat n, 5) := by
  have hchar : unitChar n = Char.ofNat n := by simp [unitChar, hhigh, hlow]
  simp only [escape, unit?_hexDigits hlt hrest, drop_hexDigits, hhigh, Bool.false_and, Bool.false_eq_true, if_false,
    hchar]
  split <;> rfl

/-- The escapes of the two units of a pair. -/
theorem escape_pair {high low : Nat} (hhigh : isHighUnit high = true) (hlow : isLowUnit low = true)
    {rest : List Char} (hrest : rest ≠ []) :
    escape ('u' :: (Text.hexDigits 4 high ++ '\\' :: 'u' :: (Text.hexDigits 4 low ++ rest))) =
      .ok (pairChar high low, 11) := by
  have hbounds : high < 0x10000 ∧ low < 0x10000 := by
    simp only [isHighUnit, isLowUnit, Bool.and_eq_true, decide_eq_true_eq] at hhigh hlow
    omega
  have hlength : 5 ≤ (Text.hexDigits 4 low ++ rest).length := by
    have := List.length_pos_iff.mpr hrest
    simp [hexDigits_four]
    omega
  have hfirst := unit?_hexDigits hbounds.1 (show '\\' :: 'u' :: (Text.hexDigits 4 low ++ rest) ≠ [] by simp)
  simp only [escape, hfirst, drop_hexDigits, hhigh, hlength, decide_true, Bool.and_self, if_true,
    unit?_hexDigits hbounds.2 hrest, hlow]

/-! ## Characters -/

/-- The two units of a character beyond the 16-bit ones make up the character. -/
theorem pairChar_units {c : Char} (h : 0x10000 ≤ c.toNat) :
    isHighUnit (0xd800 + (c.toNat - 0x10000) / 0x400) = true ∧
      isLowUnit (0xdc00 + (c.toNat - 0x10000) % 0x400) = true ∧
      pairChar (0xd800 + (c.toNat - 0x10000) / 0x400) (0xdc00 + (c.toNat - 0x10000) % 0x400) = c := by
  have hvalid : c.toNat < 0xd800 ∨ 0xdfff < c.toNat ∧ c.toNat < 0x110000 := c.valid
  refine ⟨?_, ?_, ?_⟩
  · simp only [isHighUnit, Bool.and_eq_true, decide_eq_true_eq]
    omega
  · simp only [isLowUnit, Bool.and_eq_true, decide_eq_true_eq]
    omega
  · have hunits : 0x10000 + (c.toNat - 0x10000) / 0x400 * 0x400 + (c.toNat - 0x10000) % 0x400 = c.toNat := by omega
    rw [pairChar, Nat.add_sub_cancel_left, Nat.add_sub_cancel_left, hunits, Char.ofNat_toNat]

/-- How a character is written. -/
theorem escapeChar_cases (c : Char) :
    (∃ d, escapeChar c = ['\\', d] ∧ d ≠ '\r' ∧ ∀ rest, escape (d :: rest) = .ok (c, 1)) ∨
    (escapeChar c = [c] ∧ c ≠ '\x22' ∧ c ≠ '\\' ∧ 0x20 ≤ c.toNat ∧ c.toNat ≤ 0x7e) ∨
    (escapeChar c = unitEscape c.toNat ∧ c.toNat < 0x10000) ∨
    (escapeChar c = unitEscape (0xd800 + (c.toNat - 0x10000) / 0x400) ++
      unitEscape (0xdc00 + (c.toNat - 0x10000) % 0x400) ∧ 0x10000 ≤ c.toNat) := by
  unfold escapeChar
  iterate 7
    split
    · subst c
      exact .inl ⟨_, rfl, by decide, fun _ => rfl⟩
  split
  · rename_i hquote hbackslash _ _ _ _ _ hplain
    exact .inr (.inl ⟨rfl, hquote, hbackslash, hplain⟩)
  split
  · rename_i hunit
    exact .inr (.inr (.inl ⟨rfl, hunit⟩))
  · rename_i hpair
    exact .inr (.inr (.inr ⟨rfl, Nat.le_of_not_lt hpair⟩))

/-! ## Strings -/

theorem stringTail_escape {start cs : List Char} {c : Char} {n : Nat} (h : escape cs = .ok (c, n)) (hcs : cs ≠ []) :
    stringTail start ('\\' :: cs) = (stringTail start (cs.drop n)).map fun (ds, rest) => (c :: ds, rest) := by
  rw [stringTail]
  simp [hcs, h]

/-- A written character is read as itself. -/
theorem stringTail_escapeChar (start : List Char) (c : Char) {rest : List Char} (hrest : rest ≠ []) :
    stringTail start (escapeChar c ++ rest) = (stringTail start rest).map fun (ds, rest) => (c :: ds, rest) := by
  rcases escapeChar_cases c with ⟨d, hc, -, hd⟩ | ⟨hc, hquote, hbackslash, hlow, -⟩ | ⟨hc, hunit⟩ | ⟨hc, hpair⟩
  · rw [hc]
    exact stringTail_escape (hd rest) (by simp)
  · have hcontrol : ¬c.toNat < 0x20 := Nat.not_lt.mpr hlow
    rw [hc, List.singleton_append, stringTail]
    simp only [hquote, hbackslash, hcontrol, if_false]
  · have hvalid : c.toNat < 0xd800 ∨ 0xdfff < c.toNat ∧ c.toNat < 0x110000 := c.valid
    have hhigh : isHighUnit c.toNat = false := by
      simp only [isHighUnit, Bool.and_eq_false_iff, decide_eq_false_iff_not]
      omega
    have hlow : isLowUnit c.toNat = false := by
      simp only [isLowUnit, Bool.and_eq_false_iff, decide_eq_false_iff_not]
      omega
    have hescape := escape_unit hunit hhigh hlow hrest
    rw [Char.ofNat_toNat] at hescape
    rw [hc, unitEscape, List.cons_append, List.cons_append, stringTail_escape hescape (by simp), List.drop_succ_cons,
      drop_hexDigits]
  · obtain ⟨hhigh, hlow, hchar⟩ := pairChar_units hpair
    have hescape := escape_pair hhigh hlow hrest
    rw [hchar] at hescape
    rw [hc, unitEscape, unitEscape, List.append_assoc, List.cons_append, List.cons_append, List.cons_append,
      List.cons_append, stringTail_escape hescape (by simp), hexDigits_four, hexDigits_four]
    rfl

/-- A written string is read up to its closing quote. -/
theorem stringTail_written (start cs rest : List Char) :
    stringTail start (cs.flatMap escapeChar ++ '\x22' :: rest) = .ok (cs, rest) := by
  induction cs with
  | nil => rw [List.flatMap_nil, List.nil_append, stringTail, if_pos rfl]
  | cons c cs ih =>
    rw [List.flatMap_cons, List.append_assoc, stringTail_escapeChar start c (by simp), ih]
    rfl

end JsonTables.Json
