/-
  JsonTables.Proofs.Statement.SyntaxErrors — what is said of a text that is no sentence.

  The tokens are read as far as some sentence begins with them. The clauses are located apart from that, by
  words outside parentheses, so they may stand in any order and some may be missing; the first token that
  does not fit lies in the one that starts last before it.

  Proved:
  - `exists_lexemes`: what is left of a text without its hints has tokens.
  - `syntax_error_names_clause`: which token is complained of, and which clause is named and quoted.
-/

import JsonTables.Proofs.Clause.Located
import JsonTables.Proofs.Statement.Viable

namespace JsonTables.Statement

open Grammar Clause

/-- The lexeme behind `xs` is the first one with which no sentence goes on. -/
structure Offends (lexemes xs : List Lexeme) (x : Lexeme) (ys : List Lexeme) : Prop where
  split : lexemes = xs ++ x :: ys
  viable : Viable (xs.map (·.token))
  not_viable : ¬Viable ((xs ++ [x]).map (·.token))

/-- What a text is quoted as. -/
def quoted (cs : List Char) : String := String.ofList (Text.trim cs)

/-- What may be said of the tokens of a text that are no sentence. -/
inductive Complaint (text : List Char) (lexemes : List Lexeme) : String → Prop
  /-- Before all clauses none is named. -/
  | before {xs ys : List Lexeme} {x : Lexeme} : Offends lexemes xs x ys →
      (∀ c ∈ locate lexemes, x.position < c.start) →
      Complaint text lexemes s!"Syntax error at '{x.token.shown}' (position {x.position})"
  /-- Otherwise it is the clause around the token. -/
  | within {xs ys : List Lexeme} {x : Lexeme} {front behind : List LocatedClause} {c : LocatedClause} :
      Offends lexemes xs x ys → locate lexemes = front ++ c :: behind → c.start ≤ x.position →
      (∀ d ∈ behind, x.position < d.start) →
      Complaint text lexemes
        s!"Syntax error in {c.clause.name} clause at '{x.token.shown}' (position {x.position}): {quoted (stretch text c behind)}"
  /-- At the end it is the last clause. -/
  | atEnd {front : List LocatedClause} {c : LocatedClause} : Viable (lexemes.map (·.token)) →
      (∀ plan, ¬Sentence (lexemes.map (·.token)) plan) → locate lexemes = front ++ [c] →
      Complaint text lexemes s!"Syntax error in {c.clause.name} clause at end of input: {quoted (text.drop c.start)}"

/-! ## Messages -/

theorem message_token (shown : String) (position : Nat) :
    (SyntaxPoint.token shown position).message = s!"at '{shown}' (position {position})" := rfl

theorem message_before (shown : String) (position : Nat) :
    (Malformed.syntaxError (.token shown position) none).message = s!"Syntax error at '{shown}' (position {position})" := by
  have hwords : "Syntax error at '" = "Syntax error " ++ "at '" := by decide
  show s!"Syntax error {SyntaxPoint.message (.token shown position)}" = _
  rw [message_token]
  simp only [toString, String.append_assoc, hwords]

theorem message_within (shown : String) (position : Nat) (c : Clause) (text : String) :
    (Malformed.syntaxError (.token shown position) (some (c, text))).message =
      s!"Syntax error in {c.name} clause at '{shown}' (position {position}): {text}" := by
  have hwords : " clause at '" = " clause " ++ "at '" := by decide
  have hend : "): " = ")" ++ ": " := by decide
  show s!"Syntax error in {c.name} clause {SyntaxPoint.message (.token shown position)}: {text}" = _
  rw [message_token]
  simp only [toString, String.append_assoc, hwords, hend]

theorem message_atEnd (c : Clause) (text : String) :
    (Malformed.syntaxError .endOfInput (some (c, text))).message =
      s!"Syntax error in {c.name} clause at end of input: {text}" := by
  have hpoint : SyntaxPoint.endOfInput.message = "at end of input" := rfl
  have hwords : " clause at end of input: " = " clause " ++ ("at end of input" ++ ": ") := by decide
  show s!"Syntax error in {c.name} clause {SyntaxPoint.message .endOfInput}: {text}" = _
  rw [hpoint]
  simp only [toString, String.append_assoc, hwords]

/-! ## Texts -/

theorem exists_lexemes {text : List Char} {extraction : Hint.Extraction} (h : Hint.extract text = .ok extraction) :
    ∃ lexemes, Token.lex extraction.text = .ok lexemes := by
  rcases extract_cases h with ⟨rfl, ts, hscans⟩ | ⟨_, _, _, _, _, _, _, front, -, -, -, -, -, hfront, rfl⟩
  · obtain ⟨lexemes, hlex, -⟩ := hscans.lex
    exact ⟨lexemes, hlex⟩
  · obtain ⟨lexemes, hlex, -⟩ := hfront.trimEnd.lex
    exact ⟨lexemes, hlex⟩

/-- A text in which `SELECT` and `FROM` are located fails just as its tokens do. -/
theorem parse_eq_syntaxError {sql : String} {extraction : Hint.Extraction} {lexemes : List Lexeme} {at_ : Option Lexeme}
    (hextract : Hint.extract (body sql.toList) = .ok extraction) (hlex : Token.lex extraction.text = .ok lexemes)
    (hselect : (locate lexemes).any (·.clause == .select) = true) (hfrom : (locate lexemes).any (·.clause == .from_) = true)
    (hrun : run State.start lexemes = .error at_) :
    parse sql = .error (syntaxError extraction.text (locate lexemes) at_) := by
  have hclauses : parseClauses extraction.text = .error (syntaxError extraction.text (locate lexemes) at_) := by
    simp only [parseClauses, hlex, bind, Except.bind, hselect, hfrom, hrun]
    rfl
  have hne : body sql.toList ≠ [] := by
    intro hnil
    have hempty : Token.lex [] = .ok [] := by rw [Token.lex, Token.lexFrom]
    rw [hnil, extract_of_no_with hempty (List.forall_mem_nil _)] at hextract
    obtain rfl := Except.ok.inj hextract
    obtain rfl := Except.ok.inj (hempty.symm.trans hlex)
    cases hselect
  rw [parse_eq rfl hne, hextract, Except.bind, hclauses]
  rfl

section

variable {text : List Char} {lexemes : List Lexeme}

theorem complaint_at_end (hsorted : (locate lexemes).Pairwise (·.start < ·.start)) (hne : locate lexemes ≠ [])
    (hrun : run State.start lexemes = .error none) :
    Complaint text lexemes (syntaxError text (locate lexemes) none).message := by
  obtain ⟨hviable, hno⟩ := run_error_end_iff.mp hrun
  obtain ⟨front, c, hlocate⟩ := (List.eq_nil_or_concat _).resolve_left hne
  rw [List.concat_eq_append] at hlocate
  have hsplit : (front ++ [c]).Pairwise (·.start < ·.start) := hlocate ▸ hsorted
  have hfault : syntaxError text (locate lexemes) none =
      .syntaxError .endOfInput (some (c.clause, quoted (text.drop c.start))) := by
    simp [syntaxError, hlocate, textOf_split text hsplit, stretch, quoted]
  rw [hfault, message_atEnd]
  exact .atEnd hviable hno hlocate

theorem complaint_at_token (hsorted : (locate lexemes).Pairwise (·.start < ·.start)) {x : Lexeme}
    (hrun : run State.start lexemes = .error (some x)) :
    Complaint text lexemes (syntaxError text (locate lexemes) (some x)).message := by
  obtain ⟨xs, ys, hlexemes, hviable, hnot⟩ := run_error_token_iff.mp hrun
  have hoffends : Offends lexemes xs x ys := ⟨hlexemes, hviable, hnot⟩
  rcases before_or_within hsorted x.position with hbefore | ⟨front, c, behind, hlocate, hc, hbehind⟩
  · have hfault : syntaxError text (locate lexemes) (some x) = .syntaxError (.token x.token.shown x.position) none := by
      rw [syntaxError, at?_eq_none hbefore]
      rfl
    rw [hfault, message_before]
    exact .before hoffends hbefore
  · have hsplit : (front ++ c :: behind).Pairwise (·.start < ·.start) := hlocate ▸ hsorted
    have hfault : syntaxError text (locate lexemes) (some x) =
        .syntaxError (.token x.token.shown x.position) (some (c.clause, quoted (stretch text c behind))) := by
      simp [syntaxError, hlocate, at?_split hc hbehind, textOf_split text hsplit, quoted]
    rw [hfault, message_within]
    exact .within hoffends hlocate hc hbehind

end

/-- A text whose hints are set apart, with `SELECT` and `FROM`, that is no sentence: the complaint is of the first
token with which no sentence goes on, or of the end, and names and quotes the clause around it. What the clauses
take up is the text from the first one on. -/
theorem syntax_error_names_clause {sql : String} {extraction : Hint.Extraction}
    (h : Hint.extract (body sql.toList) = .ok extraction) :
    ∃ lexemes, Token.lex extraction.text = .ok lexemes ∧
      ((∃ c ∈ locate lexemes, c.clause = .select) → (∃ c ∈ locate lexemes, c.clause = .from_) →
        (∀ plan, ¬Sentence (lexemes.map (·.token)) plan) →
        ∃ m, parse sql = .error m ∧ Complaint extraction.text lexemes m.message) ∧
      ∀ c behind, locate lexemes = c :: behind →
        (stretches extraction.text (locate lexemes)).flatten = extraction.text.drop c.start := by
  obtain ⟨lexemes, hlex⟩ := exists_lexemes h
  have hsorted := locate_pairwise (Token.inPlace_of_lexFrom hlex)
  refine ⟨lexemes, hlex, fun hselect hfrom hno => ?_, fun c behind hlocate => ?_⟩
  · cases hrun : run State.start lexemes with
    | ok plan => exact absurd (run_eq_ok_iff.mp hrun) (hno plan)
    | error at_ =>
      refine ⟨_, parse_eq_syntaxError h hlex (by simpa using hselect) (by simpa using hfrom) hrun, ?_⟩
      cases at_ with
      | none =>
        have hne : locate lexemes ≠ [] := by
          obtain ⟨c, hc, -⟩ := hselect
          exact List.ne_nil_of_mem hc
        exact complaint_at_end hsorted hne hrun
      | some x => exact complaint_at_token hsorted hrun
  · rw [hlocate] at hsorted ⊢
    exact flatten_stretches extraction.text hsorted

/-- `FROM` stands where an item must. -/
theorem syntax_error_names_clause_from :
    let text := body "SELECT FROM t".toList
    let lexemes : List Lexeme :=
      [⟨.keyword .select "SELECT", 0, 6, 1⟩, ⟨.keyword .from_ "FROM", 7, 4, 1⟩, ⟨.identifier "t", 12, 1, 1⟩]
    Hint.extract text = .ok ⟨text, Hints.empty, []⟩ ∧ Token.lex text = .ok lexemes ∧
      locate lexemes = [⟨.select, 0⟩, ⟨.from_, 7⟩] ∧ (∀ plan, ¬Sentence (lexemes.map (·.token)) plan) ∧
      ∃ m, parse "SELECT FROM t" = .error m ∧ Complaint text lexemes m.message := by
  intro text lexemes
  have hlex : Token.lex (body "SELECT FROM t".toList) = .ok lexemes := by cbv
  have hextract := extract_of_no_with hlex (by decide)
  have hlocate : locate lexemes = [⟨.select, 0⟩, ⟨.from_, 7⟩] := rfl
  have hno : ∀ plan, ¬Sentence (lexemes.map (·.token)) plan := by
    intro plan hsentence
    have hrun := run_eq_ok_iff.mpr hsentence
    cases hrun
  obtain ⟨lexemes', hlex', hcomplaint, -⟩ := syntax_error_names_clause hextract
  obtain rfl := Except.ok.inj (hlex.symm.trans hlex')
  exact ⟨hextract, hlex, hlocate, hno, hcomplaint (by simp [hlocate]) (by simp [hlocate]) hno⟩

end JsonTables.Statement
