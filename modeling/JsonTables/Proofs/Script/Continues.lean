/-
  JsonTables.Proofs.Script.Continues — when a text that is typed in line by line is taken for a whole statement.

  A statement is whole where its last token is a semicolon, but what is looked at is the last character. The two agree
  where white space alone stands behind the last token: no other token ends in a semicolon. The last character of a
  comment says nothing about the tokens in front of it, so a comment behind a semicolon asks for another line, and one
  that ends in a semicolon ends the statement.

  Proved:
  - `exists_last_lexeme`: the last token with what stands behind it.
  - `exists_trailer`: behind the last token stand white space and comments, one of them the last.
  - `continues_iff_trailer`: for every text with a token, whether more lines belong to it.
-/

import JsonTables.Proofs.Hint
import JsonTables.Proofs.Token.Places
import JsonTables.TopLevel

namespace JsonTables

/-! ## The last character of a trimmed text -/

namespace Text

/-- A text that ends in something else than white space still does when it is trimmed. -/
theorem getLast?_trim_concat {c : Char} (h : isBlank c = false) (cs : List Char) : (trim (cs ++ [c])).getLast? = some c := by
  have hstart : trimStart (cs ++ [c]) = trimStart cs ++ [c] := by
    rw [trimStart, trimStart, List.dropWhile_append]
    split
    · rename_i hnil
      rw [List.isEmpty_iff.mp hnil, List.dropWhile_cons_of_neg (by simp [h])]
      rfl
    · rfl
  have hend : trimEnd (trimStart cs ++ [c]) = trimStart cs ++ [c] := by
    rw [trimEnd, dropEndWhile_eq, List.rdropWhile_concat_neg _ _ _ (by simp [h])]
  rw [trim, hstart, hend, List.getLast?_concat]

/-- What is left of a trimmed end ends in something else than white space. -/
theorem isBlank_getLast_trimEnd {cs ds : List Char} {c : Char} (h : trimEnd cs = ds ++ [c]) : isBlank c = false := by
  have hne : cs.rdropWhile isBlank ≠ [] := by
    rw [← dropEndWhile_eq]
    exact fun hnil => by simp [trimEnd, hnil] at h
  have hlast := List.rdropWhile_last_not isBlank cs hne
  have hc : (cs.rdropWhile isBlank).getLast? = some c := by
    rw [← dropEndWhile_eq]
    show (trimEnd cs).getLast? = some c
    rw [h, List.getLast?_concat]
  rw [List.getLast?_eq_some_getLast hne, Option.some.injEq] at hc
  simpa [hc] using hlast

end Text

/-! ## What stands behind the last token -/

namespace Token

theorem exists_last_lexeme {text : List Char} {xs : List Lexeme} {x : Lexeme} (h : lex text = .ok xs)
    (hx : xs.getLast? = some x) : ∃ front src behind, text = front ++ (src ++ behind) ∧
      behind = text.drop (x.position + x.length) ∧ Spells src x.token behind ∧ Scans behind [] [] := by
  obtain ⟨before, rfl⟩ := List.getLast?_eq_some_iff.mp hx
  obtain ⟨front, src, behind, rfl, hposition, hlength, -, hsrc, hbehind⟩ := exists_lexeme h
  refine ⟨front, src, behind, rfl, ?_, hsrc, hbehind⟩
  rw [← hposition, ← hlength, ← List.length_append, ← List.append_assoc, List.drop_left]

/-- White space and comments up to the end of a text, and the last of the comments if there is one. -/
inductive Trailer : List Char → Option (List Char) → Prop
  | spaces {cs : List Char} : (∀ c ∈ cs, IsSpace c) → Trailer cs none
  | comment {before body after : List Char} : Scans before [] ('-' :: '-' :: (body ++ after)) → '\n' ∉ body →
      (∀ c ∈ after, IsSpace c) → Trailer (before ++ '-' :: '-' :: (body ++ after)) (some body)

theorem exists_trailer {cs : List Char} (h : Scans cs [] []) : ∃ comment?, Trailer cs comment? := by
  generalize hts : [] = ts at h
  generalize hrest : [] = rest at h
  induction h with
  | stop => exact ⟨none, .spaces (by simp)⟩
  | @space c cs rest ts hc _ ih =>
    obtain ⟨_, htrailer⟩ := ih hts hrest
    cases htrailer with
    | spaces hcs => exact ⟨none, .spaces (List.forall_mem_cons.mpr ⟨hc, hcs⟩)⟩
    | @comment before body after hbefore hbody hafter =>
      exact ⟨some body, .comment (.space hc hbefore) hbody hafter⟩
  | @comment body cs rest ts hbody hline _ ih =>
    obtain ⟨_, htrailer⟩ := ih hts hrest
    subst hrest
    rw [List.append_nil] at hline
    cases htrailer with
    | spaces hcs => exact ⟨some body, .comment .stop hbody hcs⟩
    | @comment before body' after hbefore hbody' hafter =>
      have hfirst : Scans ('-' :: '-' :: (body ++ before)) [] ('-' :: '-' :: (body' ++ after)) := .comment hbody hline hbefore
      rw [← List.append_assoc, ← List.cons_append, ← List.cons_append]
      exact ⟨some body', .comment hfirst hbody' hafter⟩
  | token => cases hts

end Token

namespace Script

open Token

theorem continues_of_last {text : String} {c : Char} (h : (Text.trim text.toList).getLast? = some c) :
    continues text = false ↔ c = ';' := by
  simp [continues, h]

/-- A token is looked at by its last character: none but a semicolon ends in one. -/
theorem continues_of_spaces {text : String} {front src behind : List Char} {t : Token}
    (htext : text.toList = front ++ (src ++ behind)) (hsrc : Spells src t behind) (hbehind : ∀ c ∈ behind, IsSpace c) :
    continues text = false ↔ t = .symbol .semicolon := by
  have hblank : ∀ c ∈ behind, Text.isBlank c = true := fun c hc => Statement.isBlank_of_isSpace (hbehind c hc)
  obtain ⟨cs, c, rfl⟩ := (List.eq_nil_or_concat src).resolve_left hsrc.ne_nil
  rw [List.concat_eq_append] at *
  obtain ⟨hc, hsemicolon⟩ := hsrc.ends.2 c (by rw [List.getLast?_concat]; rfl)
  have hlast : (Text.trim text.toList).getLast? = some c := by
    rw [htext, ← List.append_assoc, Text.trim_append_right hblank, ← List.append_assoc, Text.getLast?_trim_concat hc]
  rw [continues_of_last hlast]
  constructor
  · exact fun he => (hsemicolon he).2
  · rintro rfl
    have hspelling : cs ++ [c] = [] ++ [';'] := hsrc.of_symbol
    exact (List.append_singleton_inj.mp hspelling).2

/-- A comment is looked at by its last character too. -/
theorem continues_of_comment {text : String} {front body after : List Char}
    (htext : text.toList = front ++ '-' :: '-' :: (body ++ after)) (hafter : ∀ c ∈ after, IsSpace c) :
    continues text = false ↔ (Text.trimEnd body).getLast? = some ';' := by
  obtain ⟨blanks, hbody, hblanks⟩ := Text.exists_end Text.isBlank body
  have hbehind : ∀ c ∈ blanks ++ after, Text.isBlank c = true := fun c hc =>
    (List.mem_append.mp hc).elim (hblanks c) fun hc => Statement.isBlank_of_isSpace (hafter c hc)
  have hsplit : text.toList = front ++ ['-', '-'] ++ Text.trimEnd body ++ (blanks ++ after) := by
    rw [htext, Text.trimEnd]
    conv_lhs => rw [hbody]
    simp only [List.append_assoc, List.cons_append, List.nil_append]
  have htrim : Text.trim text.toList = Text.trim (front ++ ['-', '-'] ++ Text.trimEnd body) := by
    rw [hsplit, Text.trim_append_right hbehind]
  rcases List.eq_nil_or_concat (Text.trimEnd body) with hnil | ⟨cs, c, hconcat⟩
  · have hlast : (Text.trim text.toList).getLast? = some '-' := by
      rw [htrim, hnil, List.append_nil, ← List.singleton_append, ← List.append_assoc]
      exact Text.getLast?_trim_concat rfl _
    rw [continues_of_last hlast, hnil]
    decide
  · rw [List.concat_eq_append] at hconcat
    have hlast : (Text.trim text.toList).getLast? = some c := by
      rw [htrim, hconcat, ← List.append_assoc]
      exact Text.getLast?_trim_concat (Text.isBlank_getLast_trimEnd hconcat) _
    rw [continues_of_last hlast, hconcat, List.getLast?_concat, Option.some.injEq]

/-- For every text with a token: behind its last token stand white space and comments alone. Without a comment there
the statement is whole exactly where the last token is a semicolon, and else where the last comment ends in one. -/
theorem continues_iff_trailer {text : String} {lexemes : List Lexeme} {x : Lexeme} (h : lex text.toList = .ok lexemes)
    (hx : lexemes.getLast? = some x) :
    (∃ comment?, Trailer (text.toList.drop (x.position + x.length)) comment?) ∧
      ∀ comment?, Trailer (text.toList.drop (x.position + x.length)) comment? →
        (continues text = false ↔ match comment? with
          | none => x.token = .symbol .semicolon
          | some body => (Text.trimEnd body).getLast? = some ';') := by
  obtain ⟨front, src, behind, htext, hdrop, hsrc, hbehind⟩ := exists_last_lexeme h hx
  rw [← hdrop]
  refine ⟨exists_trailer hbehind, fun comment? htrailer => ?_⟩
  cases htrailer with
  | spaces hspaces => exact continues_of_spaces htext hsrc hspaces
  | comment _ _ hafter =>
    rw [← List.append_assoc, ← List.append_assoc] at htext
    exact continues_of_comment htext hafter

/-- Semicolons in a text and in a comment do not end a statement, and the one behind them does. -/
theorem continues_iff_trailer_blank :
    ∃ lexemes x, lex "SELECT ';' FROM t -- all;\n; ".toList = .ok lexemes ∧ lexemes.getLast? = some x ∧
      x.token = .symbol .semicolon ∧ continues "SELECT ';' FROM t -- all;\n; " = false := by
  have hlex : lex "SELECT ';' FROM t -- all;\n; ".toList = .ok
      [⟨.keyword .select "SELECT", 0, 6, 1⟩, ⟨.text ";", 7, 3, 1⟩, ⟨.keyword .from_ "FROM", 11, 4, 1⟩,
        ⟨.identifier "t", 16, 1, 1⟩, ⟨.symbol .semicolon, 26, 1, 2⟩] := by cbv
  have hspaces : Trailer ("SELECT ';' FROM t -- all;\n; ".toList.drop 27) none := by
    refine .spaces fun c hc => ?_
    have hdrop : "SELECT ';' FROM t -- all;\n; ".toList.drop 27 = [' '] := by cbv
    rw [hdrop] at hc
    exact .inl (List.mem_singleton.mp hc)
  exact ⟨_, _, hlex, rfl, rfl, ((continues_iff_trailer hlex rfl).2 none hspaces).mpr rfl⟩

/-- A comment behind the semicolon asks for another line, and a comment that ends in a semicolon for none. -/
theorem comment_decides_continues :
    (∃ lexemes x, lex "SELECT a FROM t; -- done".toList = .ok lexemes ∧ lexemes.getLast? = some x ∧
      x.token = .symbol .semicolon ∧ continues "SELECT a FROM t; -- done" = true) ∧
    ∃ lexemes x, lex "SELECT a FROM t -- x;".toList = .ok lexemes ∧ lexemes.getLast? = some x ∧
      x.token ≠ .symbol .semicolon ∧ continues "SELECT a FROM t -- x;" = false := by
  have hdone : lex "SELECT a FROM t; -- done".toList = .ok
      [⟨.keyword .select "SELECT", 0, 6, 1⟩, ⟨.identifier "a", 7, 1, 1⟩, ⟨.keyword .from_ "FROM", 9, 4, 1⟩,
        ⟨.identifier "t", 14, 1, 1⟩, ⟨.symbol .semicolon, 15, 1, 1⟩] := by cbv
  have hbegun : lex "SELECT a FROM t -- x;".toList = .ok
      [⟨.keyword .select "SELECT", 0, 6, 1⟩, ⟨.identifier "a", 7, 1, 1⟩, ⟨.keyword .from_ "FROM", 9, 4, 1⟩,
        ⟨.identifier "t", 14, 1, 1⟩] := by cbv
  exact ⟨⟨_, _, hdone, rfl, rfl, by cbv⟩, _, _, hbegun, rfl, by simp, by cbv⟩

end Script

end JsonTables
