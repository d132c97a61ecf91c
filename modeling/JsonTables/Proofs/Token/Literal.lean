/-
  JsonTables.Proofs.Token.Literal — every text can be written as a literal.

  Between quotes two quotes stand for one, and a backslash stands for the character behind it. So a text is
  written with each of its backslashes and each of its quotes twice, between quotes of either kind. The lexer
  first merges pairs of quotes and then drops backslashes. In the written text quotes come in pairs only, so
  no pair is made of the halves of two others, and no quote stands behind a backslash that would take it along
  when it has been merged: the backslashes that are left are the doubled ones.

  Proved:
  - `quotedBody_escaped`: what is written may stand between the quotes.
  - `textBetween_escaped`: it is decoded to the text.
  - `literal_denotes`: in front of anything but another quote the literal is one token, and the text its value.
-/

import JsonTables.Proofs.Token.Scanning

namespace JsonTables.Token

/-- A character as it is written between quotes. -/
def escapeChar (quote c : Char) : List Char := if c = '\\' ∨ c = quote then [c, c] else [c]

/-- A text as it is written between quotes: every backslash and every quote twice. -/
def escaped (quote : Char) (cs : List Char) : List Char := cs.flatMap (escapeChar quote)

/-- A text between quotes. -/
def literal (quote : Char) (s : String) : List Char := quote :: (escaped quote s.toList ++ [quote])

/-! ## What is written -/

theorem quotedBody_escaped (quote : Char) (cs : List Char) : QuotedBody quote (escaped quote cs) := by
  induction cs with
  | nil => exact .nil
  | cons c cs ih =>
    rw [escaped, List.flatMap_cons, ← escaped]
    by_cases hslash : c = '\\'
    · subst hslash
      exact .escape (by decide) ih
    · by_cases hquote : c = quote
      · subst hquote
        rw [escapeChar, if_pos (.inr rfl)]
        exact .pair ih
      · rw [escapeChar, if_neg (by simp [hslash, hquote])]
        exact .plain hslash hquote ih

/-- The two doublings may be done one after the other. -/
theorem escaped_eq {quote : Char} (hquote : quote ≠ '\\') (cs : List Char) :
    escaped quote cs = doubleQuotes quote (doubleQuotes '\\' cs) := by
  rw [escaped, doubleQuotes, doubleQuotes, List.flatMap_assoc]
  apply List.flatMap_congr
  intro c _
  by_cases hslash : c = '\\'
  · subst hslash
    simp [escapeChar, Ne.symm hquote]
  · by_cases hc : c = quote
    · subst hc
      simp [escapeChar, hquote]
    · simp [escapeChar, hslash, hc]

theorem dropBackslashes_double (cs : List Char) : dropBackslashes (doubleQuotes '\\' cs) = cs := by
  induction cs with
  | nil => rfl
  | cons c cs ih =>
    rw [doubleQuotes, List.flatMap_cons, ← doubleQuotes]
    by_cases hc : c = '\\'
    · subst hc
      rw [if_pos rfl]
      exact congrArg ('\\' :: ·) ih
    · rw [if_neg hc, List.singleton_append, dropBackslashes_cons hc, ih]

/-- What is written is decoded to the text. -/
theorem textBetween_escaped {quote : Char} (hquote : quote ≠ '\\') (s : String) :
    textBetween quote (escaped quote s.toList) = s := by
  rw [textBetween, escaped_eq hquote, mergeQuotes_doubleQuotes, dropBackslashes_double, String.ofList_toList]

/-! ## The token -/

theorem spells_literal {quote : Char} (hquote : quote = '\x27' ∨ quote = '\x22') (s : String) {rest : List Char}
    (hrest : rest.head? ≠ some quote) : Spells (literal quote s) (.text s) rest := by
  have hne : quote ≠ '\\' := by
    rcases hquote with rfl | rfl
    · decide
    · decide
  have hspells := Spells.text hquote (quotedBody_escaped quote s.toList) hrest
  rw [textBetween_escaped hne] at hspells
  exact hspells

/-- Every text is the value of its literal, between quotes of either kind: if what follows does not begin with that
quote, the piece in front is the whole literal, whatever is read behind it. So the lexer gives one token with the text
as its value, at the place and of the length of the literal, and then the tokens of what follows. -/
theorem literal_denotes {quote : Char} (hquote : quote = '\x27' ∨ quote = '\x22') (s : String) {rest : List Char}
    (hrest : rest.head? ≠ some quote) :
    (∃ more, literal quote s = quote :: more ∧
      piece? quote (more ++ rest) = some (.token (.text s), more.length)) ∧
    ∀ position line, lexFrom position line (literal quote s ++ rest) =
      (lexFrom (position + (literal quote s).length) line rest).map
        (⟨.text s, position, (literal quote s).length, line⟩ :: ·) := by
  have hspells := spells_literal hquote s hrest
  refine ⟨?_, lexFrom_token hspells⟩
  obtain ⟨c, cs, hsrc, hpiece⟩ := hspells.piece?_eq
  obtain ⟨rfl, rfl⟩ := List.cons.inj hsrc
  exact ⟨_, rfl, hpiece⟩

/-- A text that begins with a backslash and ends with an apostrophe, between apostrophes and in front of a comma. -/
theorem literal_denotes_mixed :
    [','].head? ≠ some '\x27' ∧ literal '\x27' "\\a'" = "'\\\\a'''".toList ∧
      lex (literal '\x27' "\\a'" ++ [',']) =
        .ok [⟨.text "\\a'", 0, 7, 1⟩, ⟨.symbol .comma, 7, 1, 1⟩] := by
  have hrest : [','].head? ≠ some '\x27' := by decide
  refine ⟨hrest, by decide, ?_⟩
  have hcomma : lexFrom 7 1 [','] = .ok [⟨.symbol .comma, 7, 1, 1⟩] := by
    have hpiece : piece? ',' [] = some (.token (.symbol .comma), 0) := rfl
    rw [lexFrom, hpiece]
    simp [lexFrom, isOverlong]
  have hlex := (literal_denotes (.inl rfl) "\\a'" hrest).2 0 1
  rw [show (literal '\x27' "\\a'").length = 7 from rfl, Nat.zero_add, hcomma] at hlex
  exact hlex

end JsonTables.Token
