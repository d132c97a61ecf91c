/-
  JsonTables.Proofs.Token.Lines — texts that are put together at the end of a line, and what stands outside
  the tokens of a text.

  A line end separates tokens and closes a comment, and no literal is left open in a text that the lexer accepts.
  So behind such a text and a line end it goes on as at the start of a text, with other positions and lines.
  All that it passes over between the tokens is white space or belongs to a comment.

  Proved:
  - `lexFrom_shift`: the lexer further on in a text and in its lines.
  - `Accounted.behind`, `accounted_of_lex`: what the characters of a text are.
  - `lex_line_end`: the tokens of two texts with a line end between them, and where the tokens of a text stand.
-/

import JsonTables.Proofs.Token.Places

namespace JsonTables

/-- The lexeme so many characters and lines further on. -/
def Lexeme.shift (x : Lexeme) (characters lines : Nat) : Lexeme :=
  { x with position := x.position + characters, line := x.line + lines }

namespace Token

/-! ## Further on in a text -/

theorem Lexes.shift {position line : Nat} {cs : List Char} {xs : List Lexeme} (h : Lexes position line cs xs)
    (characters lines : Nat) : Lexes (position + characters) (line + lines) cs (xs.map (·.shift characters lines)) := by
  induction h with
  | stop => exact .stop
  | @space position line _ _ _ hc _ ih =>
    rw [Nat.add_right_comm position, Nat.add_right_comm line] at ih
    exact .space hc ih
  | comment hbody hcs _ ih =>
    rw [Nat.add_right_comm] at ih
    exact .comment hbody hcs ih
  | token hspells _ ih =>
    rw [Nat.add_right_comm] at ih
    exact .token hspells ih

theorem lexFrom_shift {position line : Nat} {cs : List Char} {xs : List Lexeme} (h : lexFrom position line cs = .ok xs)
    (characters lines : Nat) :
    lexFrom (position + characters) (line + lines) cs = .ok (xs.map (·.shift characters lines)) :=
  ((lexFrom_eq_ok_iff.mp h).shift characters lines).lexFrom_eq

/-- Behind an accepted text and a line end the lexer goes on as at the start of a text. -/
theorem lex_append_line {a b : List Char} {xs ys : List Lexeme} (ha : lex a = .ok xs) (hb : lex b = .ok ys) :
    ∃ lines, lex (a ++ '\n' :: b) = .ok (xs ++ ys.map (·.shift (a.length + 1) lines)) := by
  obtain ⟨xs', line, -, halone, hread⟩ := ((scans_of_lexFrom ha).line b).lexFrom_append 0 1
  obtain rfl : xs = xs' := Except.ok.inj (ha.symm.trans halone)
  have hbehind : lexFrom (0 + a.length) line ('\n' :: b) = .ok (ys.map (·.shift (a.length + 1) line)) := by
    rw [lexFrom_space (by decide), if_pos rfl, Nat.zero_add, Nat.add_comm line]
    have hshift := lexFrom_shift hb (a.length + 1) line
    rwa [Nat.zero_add] at hshift
  refine ⟨line, ?_⟩
  rw [lex, hread, hbehind]
  rfl

/-! ## Outside the tokens -/

/-- A position among the characters that the lexemes take up. -/
def Covered (xs : List Lexeme) (i : Nat) : Prop := ∃ x ∈ xs, x.position ≤ i ∧ i < x.position + x.length

/-- Two hyphens and the rest of their line, outside the lexemes. -/
structure CommentAt (text : List Char) (xs : List Lexeme) (before body after : List Char) : Prop where
  text_eq : text = before ++ '-' :: '-' :: (body ++ after)
  oneLine : '\n' ∉ body
  toEnd : EndsLine after
  free : ∀ i, before.length ≤ i → i < before.length + (body.length + 2) → ¬Covered xs i

/-- A position in a comment. -/
def InComment (text : List Char) (xs : List Lexeme) (i : Nat) : Prop :=
  ∃ before body after, CommentAt text xs before body after ∧ before.length ≤ i ∧ i < before.length + (body.length + 2)

/-- What the characters of a text are: part of a lexeme, white space, or part of a comment. -/
def Accounted (text : List Char) (xs : List Lexeme) : Prop :=
  ∀ i c, text[i]? = some c → Covered xs i ∨ IsSpace c ∨ InComment text xs i

theorem covered_shift {xs : List Lexeme} {characters lines i : Nat} :
    Covered (xs.map (·.shift characters lines)) i ↔ characters ≤ i ∧ Covered xs (i - characters) := by
  constructor
  · rintro ⟨y, hy, hle, hlt⟩
    obtain ⟨x, hx, rfl⟩ := List.mem_map.mp hy
    dsimp only [Lexeme.shift] at hle hlt
    exact ⟨by omega, x, hx, by omega, by omega⟩
  · rintro ⟨hi, x, hx, hle, hlt⟩
    refine ⟨_, List.mem_map_of_mem hx, ?_, ?_⟩
    · dsimp only [Lexeme.shift]
      omega
    · dsimp only [Lexeme.shift]
      omega

theorem covered_append {xs ys : List Lexeme} {i : Nat} : Covered (xs ++ ys) i ↔ Covered xs i ∨ Covered ys i := by
  simp only [Covered, List.mem_append, or_and_right, exists_or]

/-- A comment stays one behind other text, if none of the lexemes there reach into it. -/
theorem CommentAt.behind {cs src before body after : List Char} {xs front : List Lexeme} {lines : Nat}
    (h : CommentAt cs xs before body after) (hfront : ∀ i, src.length ≤ i → ¬Covered front i) :
    CommentAt (src ++ cs) (front ++ xs.map (·.shift src.length lines)) (src ++ before) body after where
  text_eq := by rw [h.text_eq, List.append_assoc]
  oneLine := h.oneLine
  toEnd := h.toEnd
  free i hle hlt hcovered := by
    rw [List.length_append] at hle hlt
    rcases covered_append.mp hcovered with hcovered | hcovered
    · exact hfront i (by omega) hcovered
    · exact h.free (i - src.length) (by omega) (by omega) (covered_shift.mp hcovered).2

/-- A text is accounted for if some of it is, and what stands in front of that. -/
theorem Accounted.behind {cs : List Char} {xs : List Lexeme} (h : Accounted cs xs) (src : List Char) (front : List Lexeme)
    {lines : Nat} (hfront : ∀ i, src.length ≤ i → ¬Covered front i)
    (hsrc : ∀ i c, src[i]? = some c → Covered front i ∨ IsSpace c ∨
      InComment (src ++ cs) (front ++ xs.map (·.shift src.length lines)) i) :
    Accounted (src ++ cs) (front ++ xs.map (·.shift src.length lines)) := by
  intro i c hc
  by_cases hi : i < src.length
  · rw [List.getElem?_append_left hi] at hc
    rcases hsrc i c hc with hcovered | hother
    · exact .inl (covered_append.mpr (.inl hcovered))
    · exact .inr hother
  · have hi := Nat.not_lt.mp hi
    rw [List.getElem?_append_right hi] at hc
    rcases h (i - src.length) c hc with hcovered | hspace | ⟨before, body, after, hcomment, hle, hlt⟩
    · exact .inl (covered_append.mpr (.inr (covered_shift.mpr ⟨hi, hcovered⟩)))
    · exact .inr (.inl hspace)
    · refine .inr (.inr ⟨src ++ before, body, after, hcomment.behind hfront, ?_, ?_⟩)
      · rw [List.length_append]
        omega
      · rw [List.length_append]
        omega

/-- What the lexer reads is accounted for, a stretch at a time. -/
theorem Scans.accounted {cs rest : List Char} {ts : List Token} (h : Scans cs ts rest) (line : Nat) :
    ∃ xs, Lexes 0 line cs xs ∧ Accounted cs xs := by
  have hnone : ∀ i, ¬Covered [] i := fun i hcovered => by
    obtain ⟨x, hx, -⟩ := hcovered
    cases hx
  have hshift {cs : List Char} {line : Nat} {xs : List Lexeme} (hread : Lexes 0 line cs xs) (src : List Char) (lines : Nat) :
      Lexes (0 + src.length) (line + lines) cs (xs.map (·.shift src.length lines)) := hread.shift src.length lines
  induction h generalizing line with
  | stop =>
    refine ⟨[], .stop, fun i c hc => ?_⟩
    cases hc
  | @space c cs rest ts hc _ ih =>
    obtain ⟨xs, hread, haccounted⟩ := ih line
    refine ⟨_, .space hc (hshift hread [c] _), ?_⟩
    refine haccounted.behind [c] [] (fun i _ => hnone i) fun i d hd => ?_
    obtain rfl : d = c := by
      cases i with
      | zero => exact (Option.some.inj hd).symm
      | succ i => cases hd
    exact .inr (.inl hc)
  | @comment body cs rest ts hbody hline _ ih =>
    obtain ⟨xs, hread, haccounted⟩ := ih line
    have hlength : ('-' :: '-' :: body).length = body.length + 2 := rfl
    refine ⟨_, .comment hbody hline.of_append (hshift hread ('-' :: '-' :: body) 0), ?_⟩
    refine haccounted.behind ('-' :: '-' :: body) [] (fun i _ => hnone i) fun i d hd => .inr (.inr ?_)
    have hi := (List.getElem?_eq_some_iff.mp hd).1
    rw [hlength] at hi
    refine ⟨[], body, cs, ⟨rfl, hbody, hline.of_append, fun j _ hj hcovered => ?_⟩, Nat.zero_le _, by
      rwa [List.length_nil, Nat.zero_add]⟩
    have hle := (covered_shift.mp hcovered).1
    rw [hlength] at hle
    rw [List.length_nil] at hj
    omega
  | @token src cs rest t ts hspells _ ih =>
    obtain ⟨xs, hread, haccounted⟩ := ih line
    have hcovered {i : Nat} : Covered [⟨t, 0, src.length, line⟩] i ↔ i < src.length := by simp [Covered]
    refine ⟨_, .token hspells.of_append (hshift hread src 0), ?_⟩
    refine haccounted.behind src [⟨t, 0, src.length, line⟩] (fun i hi hc => ?_) fun i d hd =>
      .inl (hcovered.mpr (List.getElem?_eq_some_iff.mp hd).1)
    exact Nat.not_lt.mpr hi (hcovered.mp hc)

theorem accounted_of_lex {text : List Char} {xs : List Lexeme} (h : lex text = .ok xs) : Accounted text xs := by
  obtain ⟨xs', hread, haccounted⟩ := (scans_of_lexFrom h).accounted 1
  obtain rfl : xs = xs' := Except.ok.inj (h.symm.trans hread.lexFrom_eq)
  exact haccounted

/-! ## Texts at the end of a line -/

/-- Two texts that the lexer accepts are accepted with a line end between them. Their tokens are those of the first,
as they are, and behind them those of the second, moved by the characters and lines in front of it. In every text
that is accepted the tokens stand at rising positions within the text, each ends before the next one begins, and all
other characters are blanks, tabs, carriage returns and line ends, or belong to comments. -/
theorem lex_line_end :
    (∀ a b xs ys, lex a = .ok xs → lex b = .ok ys →
      ∃ lines, lex (a ++ '\n' :: b) = .ok (xs ++ ys.map (·.shift (a.length + 1) lines))) ∧
    ∀ text xs, lex text = .ok xs →
      (xs.Pairwise fun x y => x.position < y.position) ∧ InPlace 0 text.length xs ∧ Accounted text xs := by
  refine ⟨fun a b xs ys => lex_append_line, fun text xs h => ?_⟩
  have hplace := inPlace_of_lexFrom h
  rw [Nat.zero_add] at hplace
  exact ⟨hplace.pairwise_lt, hplace, accounted_of_lex h⟩

/-- A comment in which a quote is left open, and a text between quotes on the next line. -/
theorem lex_line_end_quoted :
    lex "a--'".toList = .ok [⟨.identifier "a", 0, 1, 1⟩] ∧ lex "'b'".toList = .ok [⟨.text "b", 0, 3, 1⟩] ∧
      (∃ lines, lex "a--'\n'b'".toList = .ok [⟨.identifier "a", 0, 1, 1⟩, ⟨.text "b", 5, 3, 1 + lines⟩]) ∧
      InComment "a--'".toList [⟨.identifier "a", 0, 1, 1⟩] 3 := by
  have ha : lex "a--'".toList = .ok [⟨.identifier "a", 0, 1, 1⟩] := by
    have hname : piece? 'a' ['-', '-', '\x27'] = some (.token (.identifier "a"), 0) := by decide
    have hcomment : piece? '-' ['-', '\x27'] = some (.gap 0, 2) := by decide
    show lexFrom 0 1 ['a', '-', '-', '\x27'] = _
    rw [lexFrom, hname]
    simp [lexFrom, isOverlong, hcomment]
  have hb : lex "'b'".toList = .ok [⟨.text "b", 0, 3, 1⟩] := by
    have htext : piece? '\x27' ['b', '\x27'] = some (.token (.text "b"), 2) := by decide
    show lexFrom 0 1 ['\x27', 'b', '\x27'] = _
    rw [lexFrom, htext]
    simp [lexFrom, isOverlong]
  refine ⟨ha, hb, lex_line_end.1 _ _ _ _ ha hb, ?_⟩
  rcases (lex_line_end.2 _ _ ha).2.2 3 '\x27' rfl with hcovered | hspace | hcomment
  · simp [Covered] at hcovered
  · exact absurd hspace (by decide)
  · exact hcomment

end Token

end JsonTables
