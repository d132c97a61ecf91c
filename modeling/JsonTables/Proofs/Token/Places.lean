/-
  JsonTables.Proofs.Token.Places — where the tokens of a text stand.

  `Lexes` is the lexer as a relation: a text that starts at a position and in a line, with its lexemes.

  Proved:
  - `lexFrom_eq_ok_iff`: the lexer and the relation agree.
  - `inPlace_of_lexFrom`: every token takes up some of the text, behind the token before it.
  - `exists_lexeme`: a token in its text, with what stands on its sides.
  - `lex_take`, `lex_trimEnd`: the tokens in front of another one, and those of a text without the white space at its end.
-/

import JsonTables.Proofs.Token.Scanning

namespace JsonTables.Token

/-! ## The lexer as a relation -/

/-- The lexemes of a text that starts at a position and in a line. -/
inductive Lexes : Nat → Nat → List Char → List Lexeme → Prop
  | stop {position line : Nat} : Lexes position line [] []
  | space {position line : Nat} {c : Char} {cs : List Char} {xs : List Lexeme} : IsSpace c →
      Lexes (position + 1) (line + if c = '\n' then 1 else 0) cs xs → Lexes position line (c :: cs) xs
  | comment {position line : Nat} {body cs : List Char} {xs : List Lexeme} : '\n' ∉ body → EndsLine cs →
      Lexes (position + (body.length + 2)) line cs xs → Lexes position line ('-' :: '-' :: (body ++ cs)) xs
  | token {position line : Nat} {src cs : List Char} {t : Token} {xs : List Lexeme} : Spells src t cs →
      Lexes (position + src.length) line cs xs → Lexes position line (src ++ cs) (⟨t, position, src.length, line⟩ :: xs)

theorem Lexes.lexFrom_eq {position line : Nat} {cs : List Char} {xs : List Lexeme} (h : Lexes position line cs xs) :
    lexFrom position line cs = .ok xs := by
  induction h with
  | stop => rw [lexFrom]
  | space hc _ ih => rw [lexFrom_space hc, ih]
  | comment hbody hcs _ ih => rw [lexFrom_comment hbody hcs, ih]
  | token hspells _ ih =>
    rw [lexFrom_token hspells, ih]
    rfl

theorem Scans.lexes {cs rest : List Char} {ts : List Token} (h : Scans cs ts rest) (position line : Nat) :
    ∃ xs, xs.map (·.token) = ts ∧ Lexes position line cs xs := by
  induction h generalizing position line with
  | stop => exact ⟨[], rfl, .stop⟩
  | @space c _ _ _ hc _ ih =>
    obtain ⟨xs, htokens, hcs⟩ := ih (position + 1) (line + if c = '\n' then 1 else 0)
    exact ⟨xs, htokens, .space hc hcs⟩
  | @comment body _ _ _ hbody hline _ ih =>
    obtain ⟨xs, htokens, hcs⟩ := ih (position + (body.length + 2)) line
    exact ⟨xs, htokens, .comment hbody hline.of_append hcs⟩
  | @token src _ _ _ _ hspells _ ih =>
    obtain ⟨xs, rfl, hcs⟩ := ih (position + src.length) line
    exact ⟨_, rfl, .token hspells.of_append hcs⟩

theorem lexFrom_eq_ok_iff {position line : Nat} {cs : List Char} {xs : List Lexeme} :
    lexFrom position line cs = .ok xs ↔ Lexes position line cs xs := by
  refine ⟨fun h => ?_, Lexes.lexFrom_eq⟩
  obtain ⟨ys, -, hys⟩ := (scans_of_lexFrom h).lexes position line
  obtain rfl : xs = ys := Except.ok.inj (h.symm.trans hys.lexFrom_eq)
  exact hys

/-! ## Places -/

/-- The lexemes take up some of what lies between two places, one behind the other. -/
structure InPlace (start stop : Nat) (xs : List Lexeme) : Prop where
  within : ∀ x ∈ xs, start ≤ x.position ∧ x.position + x.length ≤ stop
  pos : ∀ x ∈ xs, 0 < x.length
  ordered : xs.Pairwise fun x y => x.position + x.length ≤ y.position

theorem InPlace.mono {start start' stop stop' : Nat} {xs : List Lexeme} (h : InPlace start' stop' xs) (hstart : start ≤ start')
    (hstop : stop' ≤ stop) : InPlace start stop xs := by
  refine ⟨fun x hx => ?_, h.pos, h.ordered⟩
  have := h.within x hx
  omega

/-- No two lexemes stand at one position. -/
theorem InPlace.pairwise_lt {start stop : Nat} {xs : List Lexeme} (h : InPlace start stop xs) :
    xs.Pairwise fun x y => x.position < y.position := by
  refine (List.pairwise_iff_forall_sublist.mpr fun {x y} hxy => ?_)
  have hpos := h.pos x (hxy.subset List.mem_cons_self)
  have hle := List.pairwise_iff_forall_sublist.mp h.ordered hxy
  omega

/-- One more lexeme in front. -/
theorem InPlace.cons {stop : Nat} {x : Lexeme} {xs : List Lexeme} (hx : 0 < x.length) (hstop : x.position + x.length ≤ stop)
    (h : InPlace (x.position + x.length) stop xs) : InPlace x.position stop (x :: xs) where
  within := List.forall_mem_cons.mpr
    ⟨⟨Nat.le_refl _, hstop⟩, fun y hy => ⟨(Nat.le_add_right _ _).trans (h.within y hy).1, (h.within y hy).2⟩⟩
  pos := List.forall_mem_cons.mpr ⟨hx, h.pos⟩
  ordered := List.pairwise_cons.mpr ⟨fun y hy => (h.within y hy).1, h.ordered⟩

theorem Lexes.inPlace {position line : Nat} {cs : List Char} {xs : List Lexeme} (h : Lexes position line cs xs) :
    InPlace position (position + cs.length) xs := by
  induction h with
  | stop => exact ⟨List.forall_mem_nil _, List.forall_mem_nil _, .nil⟩
  | space _ _ ih =>
    refine ih.mono (by omega) ?_
    rw [List.length_cons]
    omega
  | comment _ _ _ ih =>
    refine ih.mono (by omega) ?_
    simp only [List.length_cons, List.length_append]
    omega
  | @token position line src cs t xs hspells _ ih =>
    rw [List.length_append, ← Nat.add_assoc]
    exact InPlace.cons (x := ⟨t, position, src.length, line⟩) (List.length_pos_of_ne_nil hspells.ne_nil)
      (Nat.le_add_right _ _) ih

theorem inPlace_of_lexFrom {position line : Nat} {cs : List Char} {xs : List Lexeme}
    (h : Token.lexFrom position line cs = .ok xs) : InPlace position (position + cs.length) xs :=
  (lexFrom_eq_ok_iff.mp h).inPlace

/-! ## A lexeme in its text -/

theorem exists_lexeme {text : List Char} {as bs : List Lexeme} {x : Lexeme} (h : lex text = .ok (as ++ x :: bs)) :
    ∃ front src behind, text = front ++ (src ++ behind) ∧ front.length = x.position ∧ src.length = x.length ∧
      lex front = .ok as ∧ Spells src x.token behind ∧ Scans behind (bs.map (·.token)) [] := by
  have hscans : Scans text (as.map (·.token) ++ x.token :: bs.map (·.token)) [] := by
    simpa using scans_of_lexFrom h
  obtain ⟨front, src, behind, rfl, hfront, hsrc, hbehind⟩ := hscans.exists_token
  rw [List.append_nil] at hfront hsrc
  obtain ⟨ys, line, htokens, halone, hread⟩ := hfront.lexFrom_append 0 1
  have hall := h
  rw [lex, hread, lexFrom_token hsrc] at hall
  cases hrest : lexFrom (0 + front.length + src.length) line behind with
  | error m =>
    rw [hrest] at hall
    cases hall
  | ok zs =>
    rw [hrest] at hall
    have hlength : ys.length = as.length := by simpa using congrArg List.length htokens
    obtain ⟨rfl, hlast⟩ := List.append_inj (Except.ok.inj hall) hlength
    obtain ⟨hx, -⟩ := List.cons.inj hlast
    have hposition : front.length = x.position := by rw [← hx, Nat.zero_add]
    exact ⟨front, src, behind, rfl, hposition, by rw [← hx], halone, hsrc, hbehind⟩

/-- In front of a token a text holds the tokens in front of it. -/
theorem lex_take {text : List Char} {as bs : List Lexeme} {x : Lexeme} (h : lex text = .ok (as ++ x :: bs)) :
    lex (text.take x.position) = .ok as := by
  obtain ⟨front, src, behind, rfl, hposition, -, hfront, -⟩ := exists_lexeme h
  rwa [← hposition, List.take_left]

/-- What holds no token changes nothing behind a text. -/
theorem Scans.lex_append {cs gap : List Char} {ts : List Token} (h : Scans cs ts gap) (hgap : Scans gap [] []) :
    Token.lex (cs ++ gap) = Token.lex cs := by
  obtain ⟨xs, line, -, halone, hread⟩ := h.lexFrom_append 0 1
  obtain ⟨ys, line', hys, hgap⟩ := hgap.lexFrom (0 + cs.length) line
  obtain rfl : ys = [] := List.map_eq_nil_iff.mp hys
  rw [List.append_nil, Token.lexFrom] at hgap
  rw [Token.lex, Token.lex, hread, hgap, halone]
  simp [Except.map]

/-- Behind the last token a text holds white space and comments, and the token does not end with white space. -/
theorem Scans.exists_end {cs rest : List Char} {ts : List Token} (h : Scans cs ts rest) :
    ∃ as gap, cs = as ++ gap ∧ Scans as ts (gap ++ rest) ∧ Scans gap [] rest ∧
      ∀ c ∈ as.getLast?, Text.isBlank c = false := by
  rcases List.eq_nil_or_concat ts with rfl | ⟨ts, t, rfl⟩
  · exact ⟨[], cs, rfl, .stop, h, by simp⟩
  · rw [List.concat_eq_append] at h ⊢
    obtain ⟨front, src, gap, rfl, hfront, hsrc, hgap⟩ := h.exists_token
    refine ⟨front ++ src, gap, by simp, hfront.append hsrc.scans, hgap, fun c hc => ?_⟩
    rw [List.getLast?_append_of_ne_nil _ hsrc.ne_nil] at hc
    exact (hsrc.ends.2 c hc).1

theorem lex_trimEnd {text : List Char} {xs : List Lexeme} (h : lex text = .ok xs) : lex (Text.trimEnd text) = .ok xs := by
  obtain ⟨cs, gap, rfl, hcs, hgap, hlast⟩ := (scans_of_lexFrom h).exists_end
  rw [List.append_nil] at hcs
  obtain ⟨spaces, hspaces, -⟩ := Text.exists_end Text.isBlank gap
  have hfront : Scans cs (xs.map (·.token)) (Text.trimEnd gap) := by
    rw [hspaces] at hcs
    exact hcs.of_append
  rw [Text.trimEnd_append hlast, hfront.lex_append hgap.trimEnd, ← hcs.lex_append hgap, h]

end JsonTables.Token
