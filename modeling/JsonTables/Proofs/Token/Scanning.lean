/-
  JsonTables.Proofs.Token.Scanning — a stretch of text read in front of what follows.

  `Scans cs ts rest` says that the lexer passes over `cs`, with `rest` behind it, and finds the tokens
  `ts` there. Such stretches can be put together and cut apart between tokens. A stretch keeps its tokens
  when less follows, and when something that separates tokens follows.

  Proved:
  - `Scans.lex`, `scans_of_lexFrom`: what the lexer accepts is what can be read to the end.
  - `Scans.append`, `Scans.split`, `Scans.suffix`: stretches one behind the other.
  - `Scans.before_space`, `Scans.separated`, `Scans.of_closing`: what may stand further behind.
  - `Scans.trim`: white space at the ends holds no token.
-/

import JsonTables.Proofs.Numeral
import JsonTables.Proofs.Token.Spelling

namespace JsonTables.Token

/-- A line ends here, or the text. -/
def EndsLine (cs : List Char) : Prop := ∀ c ∈ cs.head?, c = '\n'

theorem EndsLine.of_append {cs ds : List Char} (h : EndsLine (cs ++ ds)) : EndsLine cs := by
  cases cs with
  | nil =>
    intro c hc
    cases hc
  | cons c cs => exact h

/-- The characters, in front of what follows, hold the tokens. -/
inductive Scans : List Char → List Token → List Char → Prop
  | stop {rest : List Char} : Scans [] [] rest
  | space {c : Char} {cs rest : List Char} {ts : List Token} : IsSpace c → Scans cs ts rest → Scans (c :: cs) ts rest
  | comment {body cs rest : List Char} {ts : List Token} : '\n' ∉ body → EndsLine (cs ++ rest) → Scans cs ts rest →
      Scans ('-' :: '-' :: (body ++ cs)) ts rest
  | token {src cs rest : List Char} {t : Token} {ts : List Token} : Spells src t (cs ++ rest) → Scans cs ts rest →
      Scans (src ++ cs) (t :: ts) rest

theorem Spells.scans {src rest : List Char} {t : Token} (h : Spells src t rest) : Scans src [t] rest := by
  have hstop : Scans (src ++ []) [t] rest := .token h .stop
  rwa [List.append_nil] at hstop

theorem scans_comment {body rest : List Char} (hbody : '\n' ∉ body) (hrest : EndsLine rest) :
    Scans ('-' :: '-' :: body) [] rest := by
  have hstop : Scans ('-' :: '-' :: (body ++ [])) [] rest := .comment hbody hrest .stop
  rwa [List.append_nil] at hstop

theorem scans_of_forall {cs rest : List Char} (h : ∀ c ∈ cs, IsSpace c) : Scans cs [] rest := by
  induction cs with
  | nil => exact .stop
  | cons c cs ih => exact .space (h c List.mem_cons_self) (ih fun d hd => h d (List.mem_cons_of_mem c hd))

/-! ## Reading and the lexer -/

theorem lexFrom_space {c : Char} (hc : IsSpace c) (cs : List Char) (position line : Nat) :
    lexFrom position line (c :: cs) = lexFrom (position + 1) (line + if c = '\n' then 1 else 0) cs := by
  rcases hc with rfl | rfl | rfl | rfl
  · rw [lexFrom]
    rfl
  · rw [lexFrom]
    rfl
  · rw [lexFrom]
    rfl
  · rw [lexFrom]
    cases cs with
    | nil => rfl
    | cons d ds =>
      by_cases hd : d = '\n'
      · -- The lexer takes the line ends that follow one another in one piece.
        subst hd
        rw [lexFrom]
        simp only [piece?, List.takeWhile_cons_of_pos, decide_true, List.length_cons]
        simp only [show ¬('\n' = ' ' ∨ '\n' = '\t' ∨ '\n' = '\r') by decide, if_true, if_false]
        congr 1 <;> omega
      · have hp : piece? '\n' (d :: ds) = some (.gap 1, 0) := by
          simp [piece?, hd]
        rw [hp]
        rfl

theorem lexFrom_comment {body cs : List Char} (hbody : '\n' ∉ body) (hcs : EndsLine cs) (position line : Nat) :
    lexFrom position line ('-' :: '-' :: (body ++ cs)) = lexFrom (position + (body.length + 2)) line cs := by
  have hp : piece? '-' ('-' :: (body ++ cs)) = some (.gap 0, body.length + 1) := by
    have hline : ('-' :: (body ++ cs)).takeWhile (· ≠ '\n') = '-' :: body := by
      rw [List.takeWhile_cons_of_pos (by decide), takeWhile_ne hbody hcs]
    simp only [piece?, hline, List.length_cons]
    rfl
  rw [lexFrom, hp]
  simp only [List.drop_succ_cons, List.drop_left]
  congr 1

theorem lexFrom_token {src rest : List Char} {t : Token} (h : Spells src t rest) (position line : Nat) :
    lexFrom position line (src ++ rest) =
      (lexFrom (position + src.length) line rest).map (⟨t, position, src.length, line⟩ :: ·) := by
  obtain ⟨c, cs, rfl, hp⟩ := h.piece?_eq
  have hshort := h.isOverlong_eq
  rw [List.length_cons] at hshort
  rw [List.cons_append, lexFrom, hp]
  simp only [List.drop_left, List.length_cons, hshort, Bool.false_eq_true, if_false]
  cases lexFrom (position + cs.length + 1) line rest <;> rfl

/-- What is read passes the lexer on to what follows, with the lexemes that it gives by itself. -/
theorem Scans.lexFrom_append {cs rest : List Char} {ts : List Token} (h : Scans cs ts rest) (position line : Nat) :
    ∃ xs line', xs.map (·.token) = ts ∧ Token.lexFrom position line cs = .ok xs ∧
      Token.lexFrom position line (cs ++ rest) = (Token.lexFrom (position + cs.length) line' rest).map (xs ++ ·) := by
  induction h generalizing position line with
  | stop =>
    refine ⟨[], line, rfl, by rw [Token.lexFrom], ?_⟩
    rw [List.nil_append, List.length_nil, Nat.add_zero]
    cases Token.lexFrom position line _ <;> rfl
  | @space c cs rest ts hc _ ih =>
    obtain ⟨xs, line', htokens, halone, hread⟩ := ih (position + 1) (line + if c = '\n' then 1 else 0)
    refine ⟨xs, line', htokens, (lexFrom_space hc cs position line).trans halone, ?_⟩
    rw [List.cons_append, lexFrom_space hc, hread, List.length_cons]
    congr 2
    omega
  | @comment body cs rest ts hbody hline _ ih =>
    obtain ⟨xs, line', htokens, halone, hread⟩ := ih (position + (body.length + 2)) line
    refine ⟨xs, line', htokens, (lexFrom_comment hbody hline.of_append position line).trans halone, ?_⟩
    have hstep := lexFrom_comment hbody hline position line
    simp only [List.cons_append, List.append_assoc, List.length_cons, List.length_append] at hstep ⊢
    rw [hstep, hread]
    congr 2
    omega
  | @token src cs rest t ts hspells _ ih =>
    obtain ⟨xs, line', rfl, halone, hread⟩ := ih (position + src.length) line
    refine ⟨⟨t, position, src.length, line⟩ :: xs, line', rfl, ?_, ?_⟩
    · rw [lexFrom_token hspells.of_append, halone]
      rfl
    · rw [List.append_assoc, lexFrom_token hspells, hread, List.length_append, Nat.add_assoc]
      cases Token.lexFrom _ line' rest <;> rfl

theorem Scans.lexFrom {cs rest : List Char} {ts : List Token} (h : Scans cs ts rest) (position line : Nat) :
    ∃ xs line', xs.map (·.token) = ts ∧
      Token.lexFrom position line (cs ++ rest) = (Token.lexFrom (position + cs.length) line' rest).map (xs ++ ·) := by
  obtain ⟨xs, line', htokens, -, hread⟩ := h.lexFrom_append position line
  exact ⟨xs, line', htokens, hread⟩

theorem Scans.lex {cs : List Char} {ts : List Token} (h : Scans cs ts []) :
    ∃ xs, Token.lex cs = .ok xs ∧ xs.map (·.token) = ts := by
  obtain ⟨xs, line, htokens, hread⟩ := h.lexFrom 0 1
  refine ⟨xs, ?_, htokens⟩
  rw [List.append_nil] at hread
  rw [Token.lex, hread, Token.lexFrom]
  simp [Except.map]

/-- Every gap the lexer takes is made of what stands between tokens. -/
theorem scans_of_gap {c : Char} {more : List Char} {lines n : Nat} (h : piece? c more = some (.gap lines, n)) :
    ∃ gap rest, c :: more = gap ++ rest ∧ gap.length = n + 1 ∧ Scans gap [] rest := by
  unfold piece? at h
  split at h
  · rename_i hblank
    cases h
    refine ⟨[c], more, rfl, rfl, .space ?_ .stop⟩
    rcases hblank with rfl | rfl | rfl <;> simp [IsSpace]
  split at h
  · rename_i hnewline
    subst hnewline
    obtain ⟨front, rest, rfl, hfront, hrest⟩ := exists_stop (· = '\n') more
    rw [(takeWhile_append_stop hfront hrest).1] at h
    cases h
    refine ⟨'\n' :: front, rest, rfl, rfl, scans_of_forall (List.forall_mem_cons.mpr ⟨by decide, fun c hc => ?_⟩)⟩
    exact .inr (.inr (.inr (by simpa using hfront c hc)))
  split at h
  · rename_i hminus
    obtain ⟨rfl, hhead⟩ := hminus
    obtain ⟨ds, rfl⟩ := List.head?_eq_some_iff.mp hhead
    obtain ⟨body, rest, rfl, hbody, hline⟩ := exists_first_place '\n' ds
    rw [List.takeWhile_cons_of_pos (by decide), takeWhile_ne hbody hline] at h
    cases h
    exact ⟨'-' :: '-' :: body, rest, rfl, rfl, scans_comment hbody hline⟩
  · exfalso
    split at h
    · cases h
    split at h
    · simp at h
    split at h
    · dsimp only at h
      split at h <;> cases h
    split at h
    · cases h
    · simp at h

/-! ## Stretches one behind the other -/

theorem Scans.append {cs ds rest : List Char} {ts us : List Token} (h : Scans cs ts (ds ++ rest)) (h' : Scans ds us rest) :
    Scans (cs ++ ds) (ts ++ us) rest := by
  generalize hmore : ds ++ rest = more at h
  induction h with
  | stop => exact h'
  | space hc _ ih => exact .space hc (ih hmore)
  | comment hbody hline _ ih =>
    subst hmore
    rw [List.cons_append, List.cons_append, List.append_assoc]
    exact .comment hbody (by rwa [List.append_assoc]) (ih rfl)
  | token hspells _ ih =>
    subst hmore
    rw [List.append_assoc]
    exact .token (by rwa [List.append_assoc]) (ih rfl)

theorem Scans.append_gap {gap cs rest : List Char} {ts : List Token} (h : Scans gap [] (cs ++ rest)) (h' : Scans cs ts rest) :
    Scans (gap ++ cs) ts rest := h.append h'

/-- What stands behind a piece. -/
theorem drop_of_append {c : Char} {more src rest : List Char} {n : Nat} (h : c :: more = src ++ rest) (hlength : src.length = n + 1) :
    more.drop n = rest := by
  have hdrop := congrArg (List.drop (n + 1)) h
  rwa [List.drop_succ_cons, ← hlength, List.drop_left] at hdrop

/-- What the lexer accepts is read to the end. -/
theorem scans_of_lexFrom {position line : Nat} {cs : List Char} {xs : List Lexeme}
    (h : Token.lexFrom position line cs = .ok xs) : Scans cs (xs.map (·.token)) [] := by
  induction position, line, cs using Token.lexFrom.induct generalizing xs with
  | case1 position line =>
    rw [Token.lexFrom] at h
    cases h
    exact .stop
  | case2 position line c rest hp =>
    rw [Token.lexFrom, hp] at h
    cases h
  | case3 position line c rest lines n hp ih =>
    rw [Token.lexFrom, hp] at h
    dsimp only at h
    obtain ⟨gap, behind, hcs, hlength, hgap⟩ := scans_of_gap hp
    rw [drop_of_append hcs hlength] at ih h
    rw [hcs]
    exact Scans.append_gap (by rwa [List.append_nil]) (ih h)
  | case4 position line c rest t n hp hlong =>
    rw [Token.lexFrom, hp] at h
    simp only [hlong, if_true, reduceCtorEq] at h
  | case5 position line c rest t n hp hshort ih =>
    rw [Token.lexFrom, hp] at h
    simp only [hshort] at h
    cases hothers : Token.lexFrom (position + n + 1) line (rest.drop n) with
    | error m =>
      simp only [hothers, bind, Except.bind] at h
      cases h
    | ok others =>
      simp only [hothers, bind, Except.bind] at h
      cases h
      obtain ⟨src, behind, hcs, hlength, hspells⟩ := spells_of_piece? hp (Bool.not_eq_true _ ▸ hshort) fun d ds hd hnone => by
        rw [hd, Token.lexFrom, hnone] at hothers
        cases hothers
      rw [hcs]
      rw [drop_of_append hcs hlength] at ih hothers
      exact .token (by rwa [List.append_nil]) (ih hothers)

/-- The tokens stay the same if what follows ends earlier. -/
theorem Scans.of_append {cs rest more : List Char} {ts : List Token} (h : Scans cs ts (rest ++ more)) :
    Scans cs ts rest := by
  generalize hrest : rest ++ more = all at h
  induction h with
  | stop => exact .stop
  | space hc _ ih => exact .space hc (ih hrest)
  | comment hbody hline _ ih =>
    subst hrest
    rw [← List.append_assoc] at hline
    exact .comment hbody hline.of_append (ih rfl)
  | token hspells _ ih =>
    subst hrest
    rw [← List.append_assoc] at hspells
    exact .token hspells.of_append (ih rfl)

theorem Scans.to_end {cs rest : List Char} {ts : List Token} (h : Scans cs ts rest) : Scans cs ts [] :=
  Scans.of_append (by rwa [List.nil_append])

/-- A stretch can be cut between its tokens. -/
theorem Scans.split {cs rest : List Char} {ts us : List Token} (h : Scans cs (ts ++ us) rest) :
    ∃ as bs, cs = as ++ bs ∧ Scans as ts (bs ++ rest) ∧ Scans bs us rest := by
  generalize htokens : ts ++ us = all at h
  induction h generalizing ts with
  | stop =>
    obtain ⟨rfl, rfl⟩ := List.append_eq_nil_iff.mp htokens
    exact ⟨[], [], rfl, .stop, .stop⟩
  | @space c _ _ _ hc _ ih =>
    obtain ⟨as, bs, rfl, has, hbs⟩ := ih htokens
    exact ⟨c :: as, bs, rfl, .space hc has, hbs⟩
  | @comment body cs rest _ hbody hline hscans ih =>
    cases ts with
    | nil =>
      obtain rfl : us = _ := htokens
      exact ⟨[], _, rfl, .stop, .comment hbody hline hscans⟩
    | cons t ts =>
      obtain ⟨as, bs, rfl, has, hbs⟩ := ih htokens
      rw [List.append_assoc] at hline
      exact ⟨'-' :: '-' :: (body ++ as), bs, by simp, .comment hbody hline has, hbs⟩
  | @token src cs rest t _ hspells hscans ih =>
    cases ts with
    | nil =>
      obtain rfl : us = _ := htokens
      exact ⟨[], _, rfl, .stop, .token hspells hscans⟩
    | cons t' ts =>
      obtain ⟨rfl, htail⟩ := List.cons.inj htokens
      obtain ⟨as, bs, rfl, has, hbs⟩ := ih htail
      rw [List.append_assoc] at hspells
      exact ⟨src ++ as, bs, by simp, .token hspells has, hbs⟩

/-- The first token, with what stands in front of it. -/
theorem Scans.exists_first {cs rest : List Char} {t : Token} {ts : List Token} (h : Scans cs (t :: ts) rest) :
    ∃ gap src bs, cs = gap ++ (src ++ bs) ∧ Scans gap [] (src ++ (bs ++ rest)) ∧ Spells src t (bs ++ rest) ∧
      Scans bs ts rest := by
  generalize htokens : t :: ts = all at h
  induction h with
  | stop => cases htokens
  | @space c _ _ _ hc _ ih =>
    obtain ⟨gap, src, bs, rfl, hgap, hspells, hbs⟩ := ih htokens
    exact ⟨c :: gap, src, bs, rfl, .space hc hgap, hspells, hbs⟩
  | @comment body cs rest _ hbody hline _ ih =>
    obtain ⟨gap, src, bs, rfl, hgap, hspells, hbs⟩ := ih htokens
    simp only [List.append_assoc] at hline
    exact ⟨'-' :: '-' :: (body ++ gap), src, bs, by simp, .comment hbody hline hgap, hspells, hbs⟩
  | @token src cs rest _ _ hspells hscans ih =>
    obtain ⟨rfl, rfl⟩ := List.cons.inj htokens
    exact ⟨[], src, cs, rfl, .stop, hspells, hscans⟩

/-- A token in a stretch, with what stands on its sides. -/
theorem Scans.exists_token {cs rest : List Char} {t : Token} {ts us : List Token} (h : Scans cs (ts ++ t :: us) rest) :
    ∃ as src bs, cs = as ++ (src ++ bs) ∧ Scans as ts (src ++ (bs ++ rest)) ∧ Spells src t (bs ++ rest) ∧
      Scans bs us rest := by
  obtain ⟨as, more, rfl, has, hmore⟩ := h.split
  obtain ⟨gap, src, bs, rfl, hgap, hspells, hbs⟩ := hmore.exists_first
  simp only [List.append_assoc] at has
  have happend := has.append hgap
  rw [List.append_nil] at happend
  exact ⟨as ++ gap, src, bs, by simp, happend, hspells, hbs⟩

theorem Scans.tokens_of_nil {rest : List Char} {ts : List Token} (h : Scans [] ts rest) : ts = [] := by
  generalize hcs : [] = cs at h
  cases h with
  | stop => rfl
  | space | comment => cases hcs
  | token hspells => exact absurd (List.append_eq_nil_iff.mp hcs.symm).1 hspells.ne_nil

theorem Scans.of_space {c : Char} {cs rest : List Char} {ts : List Token} (hc : IsSpace c)
    (h : Scans (c :: cs) ts rest) : Scans cs ts rest := by
  generalize hall : c :: cs = all at h
  cases h with
  | stop => cases hall
  | space _ hscans =>
    obtain ⟨-, rfl⟩ := List.cons.inj hall
    exact hscans
  | comment =>
    obtain ⟨rfl, -⟩ := List.cons.inj hall
    exact absurd hc (by decide)
  | token hspells =>
    obtain ⟨d, ds, rfl⟩ := List.exists_cons_of_ne_nil hspells.ne_nil
    obtain ⟨rfl, -⟩ := List.cons.inj hall
    exact absurd hc hspells.head.1

theorem Scans.of_comment {body cs rest : List Char} {ts : List Token} (hbody : '\n' ∉ body) (hline : EndsLine (cs ++ rest))
    (h : Scans ('-' :: '-' :: (body ++ cs)) ts rest) : Scans cs ts rest := by
  generalize hall : '-' :: '-' :: (body ++ cs) = all at h
  cases h with
  | stop => cases hall
  | space hc =>
    obtain ⟨rfl, -⟩ := List.cons.inj hall
    exact absurd hc (by decide)
  | @comment body' cs' _ _ hbody' hline' hscans =>
    have he : body ++ cs = body' ++ cs' := (List.cons.inj (List.cons.inj hall).2).2
    have hbodies : body = body' := by
      rw [← takeWhile_ne hbody hline, ← takeWhile_ne hbody' hline', ← List.append_assoc, ← List.append_assoc, he]
    subst hbodies
    rwa [List.append_cancel_left he]
  | @token src cs' _ _ _ hspells =>
    obtain ⟨d, ds, rfl⟩ := List.exists_cons_of_ne_nil hspells.ne_nil
    obtain ⟨rfl, hds⟩ := List.cons.inj hall
    change '-' :: (body ++ cs) = ds ++ cs' at hds
    refine absurd ⟨rfl, ?_⟩ hspells.head.2
    rw [← List.append_assoc, ← hds]
    rfl

theorem Scans.of_token {src cs rest : List Char} {t : Token} {ts : List Token} (hsrc : Spells src t (cs ++ rest))
    (h : Scans (src ++ cs) ts rest) : ∃ us, ts = t :: us ∧ Scans cs us rest := by
  obtain ⟨c, ds, rfl⟩ := List.exists_cons_of_ne_nil hsrc.ne_nil
  generalize hall : c :: ds ++ cs = all at h
  cases h with
  | stop => cases hall
  | space hc =>
    obtain ⟨rfl, -⟩ := List.cons.inj hall
    exact absurd hc hsrc.head.1
  | comment =>
    obtain ⟨rfl, hds⟩ := List.cons.inj hall
    change ds ++ cs = '-' :: _ at hds
    refine absurd ⟨rfl, ?_⟩ hsrc.head.2
    rw [← List.append_assoc, hds]
    rfl
  | token hspells hscans =>
    have he := congrArg (· ++ rest) hall
    simp only [List.append_assoc] at he
    obtain ⟨rfl, rfl, -⟩ := hsrc.unique hspells he
    rw [List.append_cancel_left hall]
    exact ⟨_, rfl, hscans⟩

/-- Behind a stretch that is read the reading goes on in one way. -/
theorem Scans.suffix {cs ds rest : List Char} {ts us : List Token} (h : Scans cs ts (ds ++ rest))
    (h' : Scans (cs ++ ds) us rest) : ∃ vs, us = ts ++ vs ∧ Scans ds vs rest := by
  generalize hmore : ds ++ rest = more at h
  induction h generalizing us with
  | stop => exact ⟨us, rfl, h'⟩
  | space hc _ ih => exact ih (h'.of_space hc) hmore
  | comment hbody hline _ ih =>
    subst hmore
    rw [List.cons_append, List.cons_append, List.append_assoc] at h'
    exact ih (h'.of_comment hbody (by rwa [List.append_assoc])) rfl
  | token hspells _ ih =>
    subst hmore
    rw [List.append_assoc] at h'
    obtain ⟨us', rfl, hrest⟩ := h'.of_token (by rwa [List.append_assoc])
    obtain ⟨vs, rfl, hvs⟩ := ih hrest rfl
    exact ⟨vs, rfl, hvs⟩

theorem Scans.unique {cs rest : List Char} {ts us : List Token} (h : Scans cs ts rest) (h' : Scans cs us rest) : ts = us := by
  have hnil : Scans (cs ++ []) us rest := by rwa [List.append_nil]
  obtain ⟨vs, rfl, hvs⟩ := h.suffix hnil
  rw [hvs.tokens_of_nil, List.append_nil]

/-- What is read in front of a text, and the text. -/
theorem Scans.join {cs rest : List Char} {ts us : List Token} (h : Scans cs ts rest) (h' : Scans rest us []) :
    Scans (cs ++ rest) (ts ++ us) [] :=
  Scans.append (by rwa [List.append_nil]) h'

/-- What is left of a text behind what is read in front. -/
theorem Scans.behind {cs rest : List Char} {ts us : List Token} (h : Scans cs ts rest) (h' : Scans (cs ++ rest) us []) :
    ∃ vs, us = ts ++ vs ∧ Scans rest vs [] :=
  Scans.suffix (by rwa [List.append_nil]) h'

/-! ## What may follow -/

/-- Behind a character that separates tokens anything may stand. -/
theorem Scans.of_separator {cs as bs ds : List Char} {c : Char} {ts : List Token} (hc : ∀ ds, Separates (c :: ds))
    (hminus : c ≠ '-') (h : Scans cs ts (as ++ c :: bs)) : Scans cs ts (as ++ c :: ds) := by
  generalize hrest : as ++ c :: bs = rest at h
  induction h with
  | stop => exact .stop
  | space hspace _ ih => exact .space hspace (ih hrest)
  | comment hbody hline _ ih =>
    subst hrest
    refine .comment hbody ?_ (ih rfl)
    rw [← List.append_assoc] at hline ⊢
    intro e he
    refine hline e ?_
    rw [List.head?_append] at he ⊢
    exact he
  | token hspells _ ih =>
    subst hrest
    rw [← List.append_assoc] at hspells
    refine .token ?_ (ih rfl)
    rw [← List.append_assoc]
    exact hspells.of_append.append (hc ds) fun _ _ => by simpa using hminus

theorem Scans.of_closing {cs as bs ds : List Char} {ts : List Token} (h : Scans cs ts (as ++ ')' :: bs)) :
    Scans cs ts (as ++ ')' :: ds) :=
  h.of_separator .paren (by decide)

/-- The text ends in a comment whose line goes on to the end. -/
def EndsInComment (text : List Char) : Prop :=
  ∃ before ts comment, text = before ++ '-' :: '-' :: comment ∧ Scans before ts ('-' :: '-' :: comment) ∧
    '\n' ∉ comment

theorem EndsInComment.behind {cs ds : List Char} {ts : List Token} (hds : EndsInComment ds) (h : Scans cs ts ds) :
    EndsInComment (cs ++ ds) := by
  obtain ⟨before, us, comment, rfl, hbefore, hline⟩ := hds
  exact ⟨cs ++ before, ts ++ us, comment, by simp, h.append hbefore, hline⟩

/-- What is read to its end is read in front of white space; a comment at its end is not, but ends with the line. -/
theorem Scans.before_space {cs : List Char} {ts : List Token} (h : Scans cs ts []) {c : Char} (hc : IsSpace c)
    (hends : c = '\n' ∨ ¬EndsInComment cs) (rest : List Char) : Scans cs ts (c :: rest) := by
  generalize hnil : [] = none_ at h
  induction h with
  | stop => exact .stop
  | @space d cs _ _ hspace _ ih =>
    have hread : Scans [d] [] cs := .space hspace .stop
    exact .space hspace (ih (hends.imp_right fun hcs hend => hcs (hend.behind hread)) hnil)
  | @comment body cs _ _ hbody hline _ ih =>
    subst hnil
    rw [List.append_nil] at hline
    refine .comment hbody ?_ (ih (hends.imp_right fun hcs hend => hcs (hend.behind (scans_comment hbody hline))) rfl)
    cases cs with
    | nil =>
      rcases hends with rfl | hcs
      · simp [EndsLine]
      · exact absurd ⟨[], [], body, by simp, .stop, hbody⟩ hcs
    | cons d cs => exact hline
  | @token src cs _ t _ hspells _ ih =>
    subst hnil
    rw [List.append_nil] at hspells
    have hminus : (c :: rest).head? ≠ some '-' := by
      rintro ⟨rfl⟩
      exact absurd hc (by decide)
    exact .token (hspells.append (.space rest hc) fun _ _ => hminus)
      (ih (hends.imp_right fun hcs hend => hcs (hend.behind hspells.scans)) rfl)

/-- What is read to its end is read in front of the end of a line. -/
theorem Scans.line {cs : List Char} {ts : List Token} (h : Scans cs ts []) (rest : List Char) : Scans cs ts ('\n' :: rest) :=
  h.before_space (by decide) (.inl rfl) rest

/-- In front of something the tokens stay the same if what separates tokens is taken on behind it. -/
theorem Scans.separated {cs rest more : List Char} {ts : List Token} (h : Scans cs ts rest) (hne : rest ≠ [])
    (hmore : Separates more) : Scans cs ts (rest ++ more) := by
  induction h with
  | stop => exact .stop
  | space hc _ ih => exact .space hc (ih hne)
  | @comment body cs rest ts hbody hline _ ih =>
    refine .comment hbody ?_ (ih hne)
    rw [← List.append_assoc]
    intro c hc
    rw [List.head?_append_of_ne_nil _ (List.append_ne_nil_of_right_ne_nil cs hne)] at hc
    exact hline c hc
  | @token src cs rest t ts hspells _ ih =>
    refine .token ?_ (ih hne)
    rw [← List.append_assoc]
    exact hspells.append hmore fun _ hnil => absurd (List.append_eq_nil_iff.mp hnil).2 hne

/-- A pair of parentheses with what stands in it, behind a stretch. -/
theorem Scans.parens {before inside rest : List Char} {ts us : List Token}
    (h : Scans before ts ('(' :: (inside ++ ')' :: rest))) (h' : Scans inside us (')' :: rest)) :
    Scans (before ++ '(' :: (inside ++ [')'])) (ts ++ .symbol .leftParen :: (us ++ [.symbol .rightParen])) rest := by
  have hclose : Scans [')'] [.symbol .rightParen] rest :=
    (spells_rightParen rest).scans
  have hmore : Scans (inside ++ [')']) (us ++ [.symbol .rightParen]) rest := Scans.append (by simpa using h') hclose
  exact Scans.append (by simpa using h) (.token (spells_leftParen _) hmore)

/-- A symbol of one character in a stretch. -/
theorem Scans.exists_symbol {cs rest : List Char} {s : Symbol} {c : Char} {ts us : List Token} (hs : s.spelling.toList = [c])
    (h : Scans cs (ts ++ .symbol s :: us) rest) :
    ∃ before behind, cs = before ++ c :: behind ∧ Scans before ts (c :: (behind ++ rest)) ∧ Scans behind us rest := by
  obtain ⟨before, src, behind, rfl, hbefore, hsrc, hbehind⟩ := h.exists_token
  obtain rfl : src = [c] := hsrc.of_symbol.trans hs
  exact ⟨before, behind, rfl, hbefore, hbehind⟩

/-- A pair of parentheses in a stretch, with what stands in it and on its sides. -/
theorem Scans.exists_parens {cs rest : List Char} {ts us vs : List Token}
    (h : Scans cs (ts ++ .symbol .leftParen :: (us ++ .symbol .rightParen :: vs)) rest) :
    ∃ before inside behind, cs = before ++ '(' :: (inside ++ ')' :: behind) ∧
      Scans before ts ('(' :: (inside ++ ')' :: (behind ++ rest))) ∧ Scans inside us (')' :: (behind ++ rest)) ∧
      Scans behind vs rest := by
  obtain ⟨before, more, rfl, hbefore, hmore⟩ := h.exists_symbol (c := '(') rfl
  obtain ⟨inside, behind, rfl, hinside, hbehind⟩ := hmore.exists_symbol (c := ')') rfl
  exact ⟨before, inside, behind, rfl, by simpa using hbefore, hinside, hbehind⟩

/-- Behind a token that is read the reading goes on in one way. -/
theorem Scans.behind_token {cs src ds rest : List Char} {t : Token} {ts us : List Token} (hcs : Scans cs ts (src ++ (ds ++ rest)))
    (hsrc : Spells src t (ds ++ rest)) (h : Scans (cs ++ (src ++ ds)) (ts ++ t :: us) rest) : Scans ds us rest := by
  obtain ⟨vs, hvs, hmore⟩ := Scans.suffix (by rwa [List.append_assoc]) h
  obtain rfl := List.append_cancel_left hvs
  obtain ⟨ws, hws, hds⟩ := hmore.of_token hsrc
  obtain ⟨-, rfl⟩ := List.cons.inj hws
  exact hds

/-- Behind a pair of parentheses that is read the reading goes on in one way. -/
theorem Scans.behind_parens {before inside behind rest : List Char} {ts us vs : List Token}
    (hbefore : Scans before ts ('(' :: (inside ++ ')' :: (behind ++ rest)))) (hinside : Scans inside us (')' :: (behind ++ rest)))
    (h : Scans (before ++ '(' :: (inside ++ ')' :: behind)) (ts ++ .symbol .leftParen :: (us ++ .symbol .rightParen :: vs)) rest) :
    Scans behind vs rest :=
  hinside.behind_token (spells_rightParen _) (Scans.behind_token (by simpa using hbefore) (spells_leftParen _) h)

/-! ## Between tokens -/

/-- White space and comments, each with the end of its line. -/
inductive Filler : List Char → Prop
  | nil : Filler []
  | space {c : Char} {cs : List Char} : IsSpace c → Filler cs → Filler (c :: cs)
  | comment {body cs : List Char} : '\n' ∉ body → Filler cs → Filler ('-' :: '-' :: (body ++ '\n' :: cs))

theorem Filler.scans {cs : List Char} (h : Filler cs) (rest : List Char) : Scans cs [] rest := by
  induction h with
  | nil => exact .stop
  | space hc _ ih => exact .space hc ih
  | comment hbody _ ih => exact .comment hbody (by simp [EndsLine]) (.space (by simp [IsSpace]) ih)

/-- A comment goes on to the end of its line. -/
theorem Filler.behind_comment {cs body rest : List Char} (h : Filler cs) (hbody : '\n' ∉ body) (hline : EndsLine rest) :
    Scans ('-' :: '-' :: (body ++ cs)) [] rest := by
  induction h generalizing body with
  | nil => exact .comment hbody hline .stop
  | @space c cs hc hcs ih =>
    by_cases hend : c = '\n'
    · subst hend
      exact .comment hbody (by simp [EndsLine]) (.space hc (hcs.scans rest))
    · have hmore : '\n' ∉ body ++ [c] := by simp [hbody, Ne.symm hend]
      simpa using ih hmore
  | @comment body' cs hbody' hcs _ =>
    have hmore : '\n' ∉ body ++ '-' :: '-' :: body' := by simp [hbody, hbody']
    have hrest : Scans ('\n' :: cs) [] rest := .space (by simp [IsSpace]) (hcs.scans rest)
    simpa using Scans.comment hmore (by simp [EndsLine]) hrest

/-- More may stand between tokens. -/
theorem Scans.filler {cs more rest : List Char} (h : Scans cs [] rest) (hmore : Filler more) : Scans (cs ++ more) [] rest := by
  generalize hts : [] = ts at h
  induction h with
  | stop => exact hmore.scans _
  | space hc _ ih => exact .space hc (ih hts)
  | @comment body cs rest ts hbody hline hscans ih =>
    subst hts
    by_cases hcs : cs = []
    · subst hcs
      simpa using hmore.behind_comment hbody hline
    · obtain ⟨c, ds, rfl⟩ := List.exists_cons_of_ne_nil hcs
      rw [List.cons_append, List.cons_append, List.append_assoc]
      exact .comment hbody hline (ih rfl)
  | token => cases hts

/-- What stands between tokens separates them. -/
theorem Scans.separates {cs rest : List Char} (h : Scans cs [] rest) (hne : cs ≠ []) (more : List Char) :
    Separates (cs ++ more) := by
  generalize hts : [] = ts at h
  cases h with
  | stop => exact absurd rfl hne
  | space hc => exact .space _ hc
  | comment => exact .comment _
  | token => cases hts

/-- The place in front of `rest` is directly behind a minus. -/
def BehindMinus (cs rest : List Char) : Prop := ∃ as ts, cs = as ++ ['-'] ∧ Scans as ts ('-' :: rest)

/-- Where something is put between tokens: behind the last token and what separates it from the next one. A
comment directly behind a minus would begin at the minus. -/
theorem Scans.exists_place {cs more rest : List Char} {ts : List Token} (h : Scans cs ts rest) (hmore : Filler more)
    (hminus : BehindMinus cs rest → more.head? ≠ some '-') :
    ∃ as gap, cs = as ++ gap ∧ Scans gap [] rest ∧ Scans (gap ++ more) [] rest ∧ Scans as ts (gap ++ rest) ∧
      Scans as ts (gap ++ (more ++ rest)) := by
  rcases List.eq_nil_or_concat ts with rfl | ⟨ts, t, rfl⟩
  · exact ⟨[], cs, rfl, h, h.filler hmore, .stop, .stop⟩
  · rw [List.concat_eq_append] at *
    obtain ⟨as, src, gap, rfl, has, hsrc, hgap⟩ := h.exists_token
    have htoken {cs : List Char} (hsrc : Spells src t cs) (has : Scans as ts (src ++ cs)) : Scans (as ++ src) (ts ++ [t]) cs :=
      has.append hsrc.scans
    refine ⟨as ++ src, gap, by simp, hgap, hgap.filler hmore, htoken hsrc has, ?_⟩
    by_cases hnil : gap ++ more = []
    · obtain ⟨rfl, rfl⟩ := List.append_eq_nil_iff.mp hnil
      exact htoken hsrc has
    · have hseparates : Separates (gap ++ (more ++ rest)) := by
        rw [← List.append_assoc]
        exact (hgap.filler hmore).separates hnil rest
      have hlast : Spells src t [] := Spells.of_append hsrc
      refine htoken (hlast.append hseparates ?_) (has.of_append.separated hsrc.ne_nil hseparates)
      rintro rfl - hhead
      obtain rfl : src = ['-'] := hsrc.of_symbol
      have hgapnil : gap = [] := by
        cases gap with
        | nil => rfl
        | cons c gap =>
          obtain rfl : c = '-' := Option.some.inj hhead
          exact absurd ⟨rfl, rfl⟩ hsrc.head.2
      subst hgapnil
      obtain ⟨c, more, rfl⟩ := List.exists_cons_of_ne_nil (show more ≠ [] by simpa using hnil)
      exact hminus ⟨as, ts, by simp, has⟩ hhead

/-! ## The ends of a text -/

theorem isBlank_of_isNameChar {c : Char} (h : isNameChar c = true) : Text.isBlank c = false := by
  rw [isNameChar, Bool.or_eq_true, decide_eq_true_eq, Char.isAlphanum, Bool.or_eq_true] at h
  rcases h with (halpha | hdigit) | rfl
  · have hlt := isDigit_of_isAlpha halpha
    unfold Char.isAlpha Char.isUpper Char.isLower at halpha
    simp only [Bool.or_eq_true, Bool.and_eq_true, decide_eq_true_eq, UInt32.le_iff_toNat_le, ge_iff_le] at halpha
    have hn : c.toNat = c.val.toNat := rfl
    simp [Text.isBlank] at halpha ⊢
    omega
  · exact isBlank_of_isDecimal (isDecimal_of_isDigit hdigit)
  · rfl

/-- Neither white space nor a semicolon. -/
def Solid (c : Char) : Prop := Text.isBlank c = false ∧ c ≠ ';'

instance (c : Char) : Decidable (Solid c) := inferInstanceAs (Decidable (Text.isBlank c = false ∧ c ≠ ';'))

theorem solid_of_isDecimal {c : Char} (h : Text.isDecimal c = true) : Solid c := by
  refine ⟨isBlank_of_isDecimal h, ?_⟩
  rintro rfl
  cases h

theorem solid_of_isNameChar {c : Char} (h : isNameChar c = true) : Solid c := by
  refine ⟨isBlank_of_isNameChar h, ?_⟩
  rintro rfl
  cases h

theorem solid_numeral {ws fs es : List Char} {fraction : Option (List Nat)} {exponent : Option Int} (hw : Decimals ws)
    (hf : FractionText fs fraction) (he : ExponentText es exponent) : ∀ c ∈ ws ++ (fs ++ es), Solid c := by
  have hdecimals {ds : List Char} (hds : Decimals ds) : ∀ c ∈ ds, Solid c := fun c hc => solid_of_isDecimal (hds.2 c hc)
  refine List.forall_mem_append.mpr ⟨hdecimals hw, List.forall_mem_append.mpr ⟨?_, ?_⟩⟩
  · cases hf with
    | absent => exact List.forall_mem_nil _
    | digits hds => exact List.forall_mem_cons.mpr ⟨by decide, hdecimals hds⟩
  · cases he with
    | absent => exact List.forall_mem_nil _
    | digits hletter hsign hds =>
      refine List.forall_mem_cons.mpr ⟨?_, List.forall_mem_append.mpr ⟨?_, hdecimals hds⟩⟩
      · rcases hletter with rfl | rfl <;> decide
      · rcases hsign with rfl | rfl | rfl
        · exact List.forall_mem_nil _
        · exact List.forall_mem_singleton.mpr (by decide)
        · exact List.forall_mem_singleton.mpr (by decide)

/-- A token neither begins nor ends with white space, and only a semicolon ends with one. -/
theorem Spells.ends {src rest : List Char} {t : Token} (h : Spells src t rest) :
    (∀ c ∈ src.head?, Text.isBlank c = false) ∧
      ∀ c ∈ src.getLast?, Text.isBlank c = false ∧ (c = ';' → src = [';'] ∧ t = .symbol .semicolon) := by
  have hsolid {cs : List Char} {u : Token} (hhead : ∀ c ∈ cs.head?, Solid c) (hlast : ∀ c ∈ cs.getLast?, Solid c) :
      (∀ c ∈ cs.head?, Text.isBlank c = false) ∧
        ∀ c ∈ cs.getLast?, Text.isBlank c = false ∧ (c = ';' → cs = [';'] ∧ u = .symbol .semicolon) :=
    ⟨fun c hc => (hhead c hc).1, fun c hc => ⟨(hlast c hc).1, fun he => absurd he (hlast c hc).2⟩⟩
  have hall {cs : List Char} {u : Token} (hcs : ∀ c ∈ cs, Solid c) :=
    @hsolid cs u (fun c hc => hcs c (List.mem_of_head? hc)) fun c hc => hcs c (List.mem_of_getLast? hc)
  have hquoted {quote : Char} {body : List Char} {u : Token} (hquote : Solid quote) :=
    @hsolid (quote :: (body ++ [quote])) u (by simpa using hquote)
      (by rw [← List.cons_append, List.getLast?_concat]; simpa using hquote)
  cases h with
  | number hw hf he => exact hall (solid_numeral hw hf he)
  | text hquote => exact hquoted (by rcases hquote with rfl | rfl <;> decide)
  | quotedName => exact hquoted (by decide)
  | name hc hcs =>
    refine hall (List.forall_mem_cons.mpr ⟨?_, fun d hd => solid_of_isNameChar (hcs d hd)⟩)
    rcases isNameChar_of_startsName hc with rfl | hname
    · decide
    · exact solid_of_isNameChar hname
  | @symbol s =>
    constructor
    · intro d hd
      cases s <;> (cases hd; rfl)
    · intro d hd
      cases s <;> (cases hd; exact ⟨rfl, by decide⟩)

/-- How a stretch ends in a character: no token is lost without it, or the last token ends in it. -/
inductive LastCharacter (c : Char) (rest : List Char) : List Char → List Token → Prop
  | loose {cs : List Char} {ts : List Token} : Scans cs ts [] → LastCharacter c rest cs ts
  | token {as src : List Char} {ts : List Token} {t : Token} : Scans as ts (src ++ c :: rest) → Spells (src ++ [c]) t rest →
      LastCharacter c rest (as ++ src) (ts ++ [t])

theorem LastCharacter.behind {c : Char} {cs ds rest : List Char} {ts us : List Token} (h : LastCharacter c rest ds us)
    (h' : Scans cs ts (ds ++ c :: rest)) : LastCharacter c rest (cs ++ ds) (ts ++ us) := by
  cases h with
  | loose hds => exact .loose (h'.of_append.join hds)
  | token has hspells =>
    rw [List.append_assoc] at h'
    rw [← List.append_assoc, ← List.append_assoc]
    exact .token (h'.append has) hspells

theorem Scans.lastCharacter {cs rest : List Char} {c : Char} {ts : List Token} (hc : c ≠ '-')
    (h : Scans (cs ++ [c]) ts rest) : LastCharacter c rest cs ts := by
  generalize hall : cs ++ [c] = all at h
  induction h generalizing cs with
  | stop => simp at hall
  | @space d ds rest ts hd hscans ih =>
    cases cs with
    | nil =>
      obtain ⟨rfl, rfl⟩ := List.cons.inj hall
      rw [hscans.tokens_of_nil]
      exact .loose .stop
    | cons a cs =>
      obtain ⟨rfl, rfl⟩ := List.cons.inj hall
      exact (ih rfl).behind (.space hd .stop)
  | @comment body ds rest ts hbody hline hscans ih =>
    rcases List.eq_nil_or_concat ds with rfl | ⟨ds, d, rfl⟩
    · rw [hscans.tokens_of_nil]
      rcases List.eq_nil_or_concat body with rfl | ⟨body, d, rfl⟩
      · -- Two hyphens alone: the last one is not the character.
        obtain ⟨-, rfl⟩ := List.append_singleton_inj.mp (show cs ++ [c] = ['-'] ++ ['-'] from hall)
        exact absurd rfl hc
      · rw [List.concat_eq_append, List.append_nil, ← List.cons_append, ← List.cons_append] at hall
        obtain ⟨rfl, -⟩ := List.append_singleton_inj.mp hall
        have hbody : '\n' ∉ body := fun hmem => hbody (by simp [hmem])
        exact .loose (scans_comment hbody (by simp [EndsLine]))
    · rw [List.concat_eq_append] at *
      rw [← List.append_assoc, ← List.cons_append, ← List.cons_append] at hall
      obtain ⟨rfl, rfl⟩ := List.append_singleton_inj.mp hall
      rw [← List.cons_append, ← List.cons_append]
      exact (ih rfl).behind (scans_comment hbody (by simpa using hline))
  | @token src ds rest t ts hspells hscans ih =>
    rcases List.eq_nil_or_concat ds with rfl | ⟨ds, d, rfl⟩
    · rw [hscans.tokens_of_nil]
      rw [List.append_nil] at hall
      subst hall
      exact .token .stop hspells
    · rw [List.concat_eq_append, ← List.append_assoc] at hall
      obtain ⟨rfl, rfl⟩ := List.append_singleton_inj.mp hall
      rw [List.concat_eq_append] at *
      exact (ih rfl).behind (Spells.scans (by simpa using hspells))

/-- White space at the end holds no token. -/
theorem Scans.of_blank {cs rest : List Char} {c : Char} {ts : List Token} (hc : Text.isBlank c = true)
    (h : Scans (cs ++ [c]) ts rest) : Scans cs ts [] := by
  have hminus : c ≠ '-' := by
    rintro rfl
    cases hc
  cases h.lastCharacter hminus with
  | loose hcs => exact hcs
  | token _ hspells =>
    have hblank := (hspells.ends.2 c (by rw [List.getLast?_concat]; rfl)).1
    rw [hc] at hblank
    cases hblank

theorem Scans.of_semicolon {cs rest : List Char} {ts : List Token} (h : Scans (cs ++ [';']) ts rest) :
    Scans cs ts [] ∨ ∃ us, ts = us ++ [.symbol .semicolon] ∧ Scans cs us [] := by
  cases h.lastCharacter (by decide) with
  | loose hcs => exact .inl hcs
  | @token as src us t has hspells =>
    obtain ⟨hsrc, rfl⟩ := (hspells.ends.2 ';' (by rw [List.getLast?_concat]; rfl)).2 rfl
    obtain ⟨rfl, -⟩ := List.append_singleton_inj.mp (show src ++ [';'] = [] ++ [';'] from hsrc)
    rw [List.append_nil]
    exact .inr ⟨us, rfl, has.to_end⟩

/-- White space in front of tokens is of the kind that the lexer passes over. -/
theorem Scans.isSpace {c : Char} {cs rest : List Char} {ts : List Token} (h : Scans (c :: cs) ts rest)
    (hc : Text.isBlank c = true) : IsSpace c := by
  generalize hall : c :: cs = all at h
  cases h with
  | stop => cases hall
  | space hspace =>
    obtain ⟨rfl, -⟩ := List.cons.inj hall
    exact hspace
  | comment =>
    obtain ⟨rfl, -⟩ := List.cons.inj hall
    cases hc
  | token hspells =>
    obtain ⟨d, ds, rfl⟩ := List.exists_cons_of_ne_nil hspells.ne_nil
    obtain ⟨rfl, -⟩ := List.cons.inj hall
    rw [hspells.ends.1 c rfl] at hc
    cases hc

theorem Scans.exists_start {cs rest : List Char} {ts : List Token} (h : Scans cs ts rest) :
    ∃ spaces, cs = spaces ++ Text.trimStart cs ∧ (∀ c ∈ spaces, IsSpace c) ∧ Scans (Text.trimStart cs) ts rest := by
  induction cs with
  | nil => exact ⟨[], rfl, by simp, h⟩
  | cons c cs ih =>
    rw [Text.trimStart, List.dropWhile_cons]
    split
    · rename_i hblank
      have hc := h.isSpace hblank
      obtain ⟨spaces, hcs, hspaces, hscans⟩ := ih (h.of_space hc)
      refine ⟨c :: spaces, congrArg (c :: ·) hcs, fun d hd => ?_, hscans⟩
      rcases List.mem_cons.mp hd with rfl | hd
      · exact hc
      · exact hspaces d hd
    · exact ⟨[], rfl, by simp, h⟩

theorem Scans.trimStart {cs rest : List Char} {ts : List Token} (h : Scans cs ts rest) :
    Scans (Text.trimStart cs) ts rest := by
  obtain ⟨spaces, -, -, hscans⟩ := h.exists_start
  exact hscans

theorem Scans.trimEnd {cs : List Char} {ts : List Token} (h : Scans cs ts []) : Scans (Text.trimEnd cs) ts [] := by
  rw [Text.trimEnd, Text.dropEndWhile_eq]
  induction cs using List.reverseRecOn with
  | nil => exact h
  | append_singleton cs c ih =>
    rw [List.rdropWhile_concat]
    split
    · rename_i hblank
      exact ih (h.of_blank hblank)
    · exact h

theorem Scans.trim {cs : List Char} {ts : List Token} (h : Scans cs ts []) : Scans (Text.trim cs) ts [] :=
  h.trimStart.trimEnd

/-- Without the white space and the semicolons at its end a text has lost no token but semicolons. -/
theorem Scans.dropEnd {cs : List Char} {ts : List Token} (h : Scans cs ts []) :
    ∃ us k, ts = us ++ List.replicate k (.symbol .semicolon) ∧
      Scans (Text.dropEndWhile (fun c => c = ';' || Text.isBlank c) cs) us [] := by
  rw [Text.dropEndWhile_eq]
  induction cs using List.reverseRecOn generalizing ts with
  | nil => exact ⟨ts, 0, by simp, h⟩
  | append_singleton cs c ih =>
    rw [List.rdropWhile_concat]
    split
    · rename_i hdrop
      by_cases hblank : Text.isBlank c = true
      · exact ih (h.of_blank hblank)
      · obtain rfl : c = ';' := by simpa [hblank] using hdrop
        rcases h.of_semicolon with hsame | ⟨us, rfl, hus⟩
        · exact ih hsame
        · obtain ⟨vs, k, rfl, hvs⟩ := ih hus
          exact ⟨vs, k + 1, by rw [List.append_assoc, ← List.replicate_succ'], hvs⟩
    · exact ⟨ts, 0, by simp, h⟩

end JsonTables.Token
