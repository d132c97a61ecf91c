/-
  JsonTables.Proofs.Hint — which names in a list are hints, and what stands between them.

  A name counts in upper case, so a hint's name is made of characters whose upper case is made of letters.
  Among the characters of a token that holds for names only. So a piece of a list that is a hint holds one
  token at most, and white space beside a token is trimmed off.

  Proved:
  - `listed_hints`: white space between the tokens of a list does not change its hints.
-/

import JsonTables.Proofs.Statement.Hinted
import JsonTables.Proofs.Text.Trim
import JsonTables.Proofs.TopLevel

namespace JsonTables.Statement

open Token

/-! ## Names of hints -/

/-- In upper case the character is nothing but letters. -/
def IsLetter (c : Char) : Prop := ∀ d ∈ Text.upperChar c, d.isUpper = true

theorem not_isLetter {c : Char} (hc : c.toNat < 0x80) (hupper : c.toUpper.isUpper = false) : ¬IsLetter c := by
  intro h
  rw [IsLetter, Text.upperChar, if_pos hc] at h
  rw [h _ (List.mem_singleton_self _)] at hupper
  cases hupper

/-- No digit of any script has another upper case. -/
theorem not_isLetter_of_isDecimal {c : Char} (hc : Text.isDecimal c = true) : ¬IsLetter c := by
  obtain ⟨first, hmem, hrange⟩ := exists_zero_of_isDecimal hc
  by_cases hascii : c.toNat < 0x80
  · have hdigits : ∀ first ∈ Text.zeroDigits, first < 0x80 → ∀ i < 10, (Char.ofNat (first + i)).toUpper.isUpper = false := by
      decide +kernel
    refine not_isLetter hascii ?_
    have hupper := hdigits first hmem (by omega) (c.toNat - first) (by omega)
    rwa [Nat.add_sub_cancel' hrange.1, Char.ofNat_toNat] at hupper
  · have hruns : ∀ first ∈ Text.zeroDigits, ∀ run ∈ Text.upperRuns, first + 9 < run.first ∨ run.last < first := by
      decide +kernel
    have hexpansions : ∀ first ∈ Text.zeroDigits, ∀ e ∈ Text.upperExpansions, first + 9 < e.source ∨ e.source < first := by
      decide +kernel
    have hnone : Text.upperRuns.findSome? (Text.CaseRun.move? · c) = none := by
      rw [List.findSome?_eq_none_iff]
      intro run hrun
      have := hruns first hmem run hrun
      simp only [Text.CaseRun.move?, ite_eq_right_iff, reduceCtorEq, imp_false]
      omega
    have hfind : Text.upperExpansions.find? (·.source == c.toNat) = none := by
      rw [List.find?_eq_none]
      intro e he
      have := hexpansions first hmem e he
      simp only [beq_iff_eq]
      omega
    intro h
    rw [IsLetter, Text.upperChar, if_neg hascii, Text.mapCase, hnone] at h
    simp only [hfind, List.mem_singleton, forall_eq, Char.isUpper, decide_eq_true_eq,
      UInt32.le_iff_toNat_le, ge_iff_le] at h
    have hn : c.toNat = c.val.toNat := rfl
    have hz : 'Z'.val.toNat = 90 := rfl
    omega

theorem not_isLetter_of_isSpace {c : Char} (hc : IsSpace c) : ¬IsLetter c := by
  rcases hc with rfl | rfl | rfl | rfl <;> exact not_isLetter (by decide) (by decide)

/-- A token that begins with a letter is a name. -/
theorem name_of_isLetter {c : Char} {cs rest : List Char} {t : Token} (h : Spells (c :: cs) t rest) (hc : IsLetter c) :
    StartsName c ∧ ∀ d ∈ rest.head?, isNameChar d = false := by
  generalize hsrc : c :: cs = src at h
  cases h with
  | @number ws fs es _ _ _ hw =>
    obtain ⟨w, ws, rfl⟩ := List.exists_cons_of_ne_nil hw.1
    obtain ⟨rfl, -⟩ := List.cons.inj hsrc
    exact absurd hc (not_isLetter_of_isDecimal (hw.2 c List.mem_cons_self))
  | text hquote =>
    obtain ⟨rfl, -⟩ := List.cons.inj hsrc
    rcases hquote with rfl | rfl <;> exact absurd hc (not_isLetter (by decide) (by decide))
  | quotedName =>
    obtain ⟨rfl, -⟩ := List.cons.inj hsrc
    exact absurd hc (not_isLetter (by decide) (by decide))
  | name hname _ hrest =>
    obtain ⟨rfl, -⟩ := List.cons.inj hsrc
    exact ⟨hname, hrest⟩
  | @symbol s =>
    cases s <;> (obtain ⟨rfl, -⟩ := List.cons.inj hsrc; exact absurd hc (not_isLetter (by decide) (by decide)))

/-- Where a stretch begins with a letter a name begins, with nothing in front of it. -/
theorem exists_name_of_isLetter {c : Char} {cs rest : List Char} {ts : List Token} (h : Scans (c :: cs) ts rest)
    (hc : IsLetter c) : StartsName c ∧
      ∃ src ds t us, cs = src ++ ds ∧ ts = t :: us ∧ Scans ds us rest ∧ ∀ d ∈ (ds ++ rest).head?, isNameChar d = false := by
  generalize hall : c :: cs = all at h
  cases h with
  | stop => cases hall
  | space hspace =>
    obtain ⟨rfl, -⟩ := List.cons.inj hall
    exact absurd hc (not_isLetter_of_isSpace hspace)
  | comment =>
    obtain ⟨rfl, -⟩ := List.cons.inj hall
    exact absurd hc (not_isLetter (by decide) (by decide))
  | token hspells hscans =>
    obtain ⟨d, src, rfl⟩ := List.exists_cons_of_ne_nil hspells.ne_nil
    obtain ⟨rfl, rfl⟩ := List.cons.inj hall
    obtain ⟨hstart, hends⟩ := name_of_isLetter hspells hc
    exact ⟨hstart, src, _, _, _, rfl, rfl, hscans, hends⟩

/-- A text of letters is one token at most. -/
theorem length_le_one_of_letters {cs : List Char} {ts : List Token} (h : Scans cs ts []) (hcs : ∀ c ∈ cs, IsLetter c) :
    ts.length ≤ 1 := by
  cases cs with
  | nil => simp [h.tokens_of_nil]
  | cons c cs =>
    obtain ⟨-, src, ds, t, us, rfl, rfl, hds, hends⟩ := exists_name_of_isLetter h (hcs c List.mem_cons_self)
    cases ds with
    | nil => simp [hds.tokens_of_nil]
    | cons d ds =>
      -- The next name would have been part of the first.
      have hd : IsLetter d := hcs d (by simp)
      have hname := hends d rfl
      rcases isNameChar_of_startsName (exists_name_of_isLetter hds hd).1 with rfl | hstart
      · exact absurd hd (not_isLetter (by decide) (by decide))
      · rw [hstart] at hname
        cases hname

/-! ## White space in a piece -/

theorem isBlank_of_isSpace {c : Char} (h : IsSpace c) : Text.isBlank c = true := by
  rcases h with rfl | rfl | rfl | rfl <;> rfl

/-- Without a comment all that stands between tokens is white space. -/
theorem isSpace_of_scans {cs rest : List Char} (h : Scans cs [] rest) (hcs : '-' ∉ cs) : ∀ c ∈ cs, Text.isBlank c = true := by
  generalize hts : [] = ts at h
  induction h with
  | stop =>
    intro c hc
    cases hc
  | space hspace _ ih =>
    rw [List.mem_cons, not_or] at hcs
    intro c hc
    rcases List.mem_cons.mp hc with rfl | hc
    · exact isBlank_of_isSpace hspace
    · exact ih hcs.2 hts c hc
  | comment => exact absurd List.mem_cons_self hcs
  | token => cases hts

/-- In a piece of letters white space may stand on the sides only. -/
theorem trim_gap {front gap space space' behind rest : List Char} {ts us : List Token} (hfront : Scans front ts [])
    (hgap : Scans gap [] rest) (hbehind : Scans behind us []) (hspace : ∀ c ∈ space, IsSpace c)
    (hspace' : ∀ c ∈ space', IsSpace c) (h : Scans (front ++ (gap ++ (space ++ behind))) (ts ++ us) [])
    (hletters : ∀ c ∈ Text.trim (front ++ (gap ++ (space ++ behind))), IsLetter c) :
    Text.trim (front ++ (gap ++ (space' ++ behind))) = Text.trim (front ++ (gap ++ (space ++ behind))) := by
  have hminus : '-' ∉ front ++ (gap ++ (space ++ behind)) := fun hmem =>
    not_isLetter (by decide) (by decide) (hletters '-' (Text.mem_trim hmem rfl))
  simp only [List.mem_append, not_or] at hminus
  obtain ⟨hf, hg, -, hb⟩ := hminus
  have hgap := isSpace_of_scans hgap hg
  have hspaces {space : List Char} (hspace : ∀ c ∈ space, IsSpace c) : ∀ c ∈ space, Text.isBlank c = true :=
    fun c hc => isBlank_of_isSpace (hspace c hc)
  have hlength := length_le_one_of_letters h.trim hletters
  rw [List.length_append] at hlength
  rcases (by omega : ts.length = 0 ∨ us.length = 0) with hts | hus
  · obtain rfl := List.length_eq_zero_iff.mp hts
    have hfront := isSpace_of_scans hfront hf
    rw [Text.trim_append_left hfront, Text.trim_append_left hfront, Text.trim_append_left hgap, Text.trim_append_left hgap,
      Text.trim_append_left (hspaces hspace), Text.trim_append_left (hspaces hspace')]
  · obtain rfl := List.length_eq_zero_iff.mp hus
    have hbehind := isSpace_of_scans hbehind hb
    have hright {space : List Char} (hspace : ∀ c ∈ space, IsSpace c) :
        Text.trim (front ++ (gap ++ (space ++ behind))) = Text.trim front := by
      refine Text.trim_append_right (fun c hc => ?_) front
      simp only [List.mem_append] at hc
      rcases hc with hc | hc | hc
      · exact hgap c hc
      · exact hspaces hspace c hc
      · exact hbehind c hc
    rw [hright hspace, hright hspace']

/-! ## The hints of a list -/

theorem isLetter_of_upper {name : String} {w : String} (h : Text.upper name = w) (hw : ∀ d ∈ w.toList, d.isUpper = true) :
    ∀ c ∈ name.toList, IsLetter c := by
  subst h
  intro c hc d hd
  refine hw d ?_
  rw [Text.upper, String.toList_ofList]
  exact List.mem_flatMap.mpr ⟨c, hc, hd⟩

/-- Only a name of letters is a hint. -/
theorem hints_add {name : String} (hname : ¬∀ c ∈ name.toList, IsLetter c) (x : Hint.Extraction) :
    (x.add name).hints = x.hints := by
  unfold Hint.Extraction.add
  split
  · rename_i h
    exact absurd (isLetter_of_upper h (by simp)) hname
  · rename_i h
    exact absurd (isLetter_of_upper h (by simp)) hname
  · rename_i h
    exact absurd (isLetter_of_upper h (by simp)) hname
  · rfl

theorem hints_add_congr {x y : Hint.Extraction} (h : x.hints = y.hints) (name : String) :
    (x.add name).hints = (y.add name).hints := by
  unfold Hint.Extraction.add
  split <;> simp only [h]

theorem hints_addAll_congr {x y : Hint.Extraction} (h : x.hints = y.hints) (names : List (List Char)) :
    (addAll x names).hints = (addAll y names).hints := by
  induction names generalizing x y with
  | nil => exact h
  | cons name names ih => exact ih (hints_add_congr h _)

/-- The names in the pieces of a list. -/
def namesOf (pieces : List (List Char)) : List (List Char) := (pieces.map Text.trim).filter (!·.isEmpty)

/-- A list means what its pieces mean, one behind the other. -/
theorem listed_of_pieces {text piece : List Char} {before behind : List (List Char)}
    (h : TopLevel.pieces [','] .plain 0 [] text = before ++ piece :: behind) :
    listed text =
      addAll (addAll (addAll ⟨[], Hints.empty, []⟩ (namesOf before)) (namesOf [piece])) (namesOf behind) := by
  have hsplit : TopLevel.split [','] text = namesOf before ++ (namesOf [piece] ++ namesOf behind) := by
    rw [TopLevel.split, h, namesOf, namesOf, namesOf, List.map_append, List.map_cons, List.filter_append,
      ← List.singleton_append, List.filter_append]
    rfl
  rw [listed, hsplit, addAll, List.foldl_append, List.foldl_append]
  rfl

/-- A piece that is not made of letters is no hint. -/
theorem hints_of_piece {piece : List Char} (h : ¬∀ c ∈ Text.trim piece, IsLetter c) (x : Hint.Extraction) :
    (addAll x (namesOf [piece])).hints = x.hints := by
  by_cases hempty : Text.trim piece = []
  · simp [namesOf, addAll, hempty]
  · have hname : ¬∀ c ∈ (String.ofList (Text.trim piece)).toList, IsLetter c := by rwa [String.toList_ofList]
    simpa [namesOf, addAll, hempty] using hints_add hname x

open TopLevel in
/-- White space between the tokens of a list does not change its hints. -/
theorem listed_hints {front gap space behind : List Char} {us vs : List Token} (hus : ∀ t ∈ us, PlainName t)
    (hvs : ∀ t ∈ vs, PlainName t) (hspace : ∀ c ∈ space, IsSpace c) (hgap : Scans gap [] behind)
    (hgap' : Scans (gap ++ space) [] behind) (h : Scans front us (gap ++ behind))
    (h' : Scans front us (gap ++ (space ++ behind))) (hbehind : Scans behind vs []) :
    (listed (front ++ (gap ++ (space ++ behind)))).hints = (listed (front ++ (gap ++ behind))).hints := by
  -- The lists differ in the piece in which the white space stands, and its tokens are the same.
  obtain ⟨before, piece, piece', others, run, run', -, -, -, hpiece, hpiece', hpieces⟩ :=
    exists_middle_piece .comma h.to_end hbehind hus hvs
  have hnone : ∀ c ∈ ([] : List Char), IsSpace c := fun c hc => by cases hc
  obtain ⟨hpieces₁, hscans₁⟩ := hpieces (gap ++ space) hgap' (by rwa [List.append_assoc])
  obtain ⟨hpieces₂, hscans₂⟩ := hpieces gap hgap h
  rw [List.append_assoc, List.append_assoc] at hpieces₁
  rw [List.append_assoc] at hscans₁
  have hsame (htrim : Text.trim (piece ++ (gap ++ (space ++ piece'))) = Text.trim (piece ++ (gap ++ piece'))) :
      (listed (front ++ (gap ++ (space ++ behind)))).hints = (listed (front ++ (gap ++ behind))).hints := by
    rw [listed_of_pieces hpieces₁, listed_of_pieces hpieces₂]
    simp only [namesOf, List.map_cons, htrim]
  by_cases hletters₁ : ∀ c ∈ Text.trim (piece ++ (gap ++ (space ++ piece'))), IsLetter c
  · exact hsame (trim_gap hpiece hgap hpiece' hspace hnone hscans₁ hletters₁).symm
  · by_cases hletters₂ : ∀ c ∈ Text.trim (piece ++ (gap ++ piece')), IsLetter c
    · exact hsame (trim_gap hpiece hgap hpiece' hnone hspace hscans₂ hletters₂)
    · rw [listed_of_pieces hpieces₁, listed_of_pieces hpieces₂]
      refine hints_addAll_congr ?_ _
      rw [hints_of_piece hletters₁, hints_of_piece hletters₂]

end JsonTables.Statement
