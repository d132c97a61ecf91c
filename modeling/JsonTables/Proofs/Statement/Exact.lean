/-
  JsonTables.Proofs.Statement.Exact — the parser of statements and the grammar agree.

  Before the tokens are read one by one, the clauses of the text are located, and a statement without
  `SELECT` or `FROM` outside parentheses is refused. No sentence is: what stands between these two words
  is balanced. Without the word `WITH` there are no hints.

  Proved:
  - `run_eq_ok_iff`: tokens are read to a plan just if they are a sentence that says it.
  - `sentence_unique`: no tokens say two things.
  - `parser_agrees_with_grammar`: so is a text of such tokens, and every other one is an error.
-/

import JsonTables.Proofs.Statement.Complete
import JsonTables.Proofs.Statement.Sound
import JsonTables.Statement.Parser
import Mathlib

namespace JsonTables.Statement

open Grammar

/-! ## Rows of tokens -/

theorem run_eq_ok {s : State} {lexemes : List Lexeme} {plan : Plan} :
    run s lexemes = .ok plan ↔ ∃ s', steps s (lexemes.map (·.token)) = some s' ∧ s'.plan? = some plan := by
  induction lexemes generalizing s with
  | nil =>
    cases hp : s.plan? with
    | some p => simp [run, hp]
    | none => simp [run, hp]
  | cons x xs ih =>
    cases hs : s.step x.token with
    | some s₁ => simp [run, hs, ih]
    | none => simp [run, hs]

theorem run_eq_ok_iff {lexemes : List Lexeme} {plan : Plan} :
    run State.start lexemes = .ok plan ↔ Sentence (lexemes.map (·.token)) plan := by
  rw [run_eq_ok]
  constructor
  · intro h
    obtain ⟨s, hs, hp⟩ := h
    exact sentence_of_plan hs hp
  · intro h
    exact plan_of_sentence h

/-- A row of tokens says one thing at most. -/
theorem sentence_unique {ts : List Token} {plan plan' : Plan} (h : Sentence ts plan) (h' : Sentence ts plan') :
    plan = plan' := by
  obtain ⟨s, hs, hp⟩ := plan_of_sentence h
  obtain ⟨s', hs', hp'⟩ := plan_of_sentence h'
  obtain rfl : s = s' := Option.some.inj (hs.symm.trans hs')
  exact Option.some.inj (hp.symm.trans hp')

/-! ## Parentheses -/

/-- How many parentheses are open behind some tokens. -/
def depthAfter (depth : Nat) : List Token → Nat
  | [] => depth
  | .symbol .rightParen :: ts => depthAfter (depth - 1) ts
  | .symbol .leftParen :: ts => depthAfter (depth + 1) ts
  | _ :: ts => depthAfter depth ts

/-- As many parentheses close as open, and none before its own opens. -/
def Balanced (ts : List Token) : Prop := ∀ depth, depthAfter depth ts = depth

theorem depthAfter_append (depth : Nat) (ts us : List Token) :
    depthAfter depth (ts ++ us) = depthAfter (depthAfter depth ts) us := by
  fun_induction depthAfter depth ts <;> simp_all [depthAfter]

theorem Balanced.append {ts us : List Token} (ht : Balanced ts) (hu : Balanced us) : Balanced (ts ++ us) := by
  intro depth
  rw [depthAfter_append, ht, hu]

theorem Balanced.paren {ts : List Token} (h : Balanced ts) :
    Balanced ([.symbol .leftParen] ++ ts ++ [.symbol .rightParen]) := by
  intro depth
  rw [depthAfter_append, depthAfter_append, h]
  rfl

theorem composable_balanced : Composable Balanced where
  nil := fun _ => rfl
  single := by
    intro t ht depth
    cases t with
    | symbol s => cases s <;> first | rfl | cases ht
    | _ => rfl
  append := Balanced.append
  paren := Balanced.paren

/-- A sentence starts with `SELECT` and has `FROM` behind something balanced. -/
theorem sentence_shape {ts : List Token} {plan : Plan} (h : Sentence ts plan) :
    ∃ w is from_ rest, ts = [.keyword .select w] ++ is ++ .keyword .from_ from_ :: rest ∧ Balanced is := by
  have hselect {ts : List Token} {plan : Plan} (h : Select ts plan) :
      ∃ w is from_ rest, ts = [.keyword .select w] ++ is ++ .keyword .from_ from_ :: rest ∧ Balanced is := by
    obtain @⟨ds, is, ps, js, ws, gs, hs, os, ls, fs, _, _, _, _, _, _, _, _, _, _, w, from_, hd, hi, -⟩ := h
    have hds : Balanced ds := by
      cases hd <;> exact fun _ => rfl
    exact ⟨w, ds ++ is, from_, ps ++ js ++ ws ++ gs ++ hs ++ os ++ ls ++ fs, by simp, hds.append (composable_balanced.items hi)⟩
  cases h with
  | bare h => exact hselect h
  | closed h =>
    obtain ⟨w, is, from_, rest, rfl, hb⟩ := hselect h
    exact ⟨w, is, from_, rest ++ [.symbol .semicolon], by simp, hb⟩

theorem hints_of_sentence {ts : List Token} {plan : Plan} (h : Sentence ts plan) : plan.hints = Hints.empty := by
  obtain ⟨h⟩ | ⟨h⟩ := h <;> cases h <;> rfl

/-! ## Clauses and hints -/

theorem depthAfter_other {t : Token} (hr : t ≠ .symbol .rightParen) (hl : t ≠ .symbol .leftParen) (depth : Nat)
    (ts : List Token) : depthAfter depth (t :: ts) = depthAfter depth ts := by
  cases t with
  | symbol s => cases s <;> first | rfl | contradiction
  | _ => rfl

theorem withDepth_append (depth : Nat) (xs ys : List Lexeme) :
    withDepth depth (xs ++ ys) = withDepth depth xs ++ withDepth (depthAfter depth (xs.map (·.token))) ys := by
  induction xs generalizing depth with
  | nil => rfl
  | cons x xs ih =>
    by_cases hr : x.token = .symbol .rightParen
    · simp [withDepth, Lexeme.isSymbol, hr, depthAfter, ih]
    · by_cases hl : x.token = .symbol .leftParen
      · simp [withDepth, Lexeme.isSymbol, hl, depthAfter, ih]
      · simp [withDepth, Lexeme.isSymbol, hr, hl, depthAfter_other hr hl, ih]

theorem mem_of_mem_withDepth {depth : Nat} {lexemes : List Lexeme} {x : Lexeme × Nat}
    (h : x ∈ withDepth depth lexemes) : x.1 ∈ lexemes := by
  fun_induction withDepth depth lexemes with
  | case1 => cases h
  | case2 depth y rest _ ih | case3 depth y rest _ _ ih | case4 depth y rest _ _ ih =>
    rcases List.mem_cons.mp h with rfl | h
    · exact List.mem_cons_self
    · exact List.mem_cons_of_mem _ (ih h)

/-- A word outside parentheses that alone opens a clause. -/
theorem exists_opening {before behind : List (Lexeme × Nat)} {x : Lexeme} {c : Clause}
    (h : ∀ next, Clause.opened? x next = some c) :
    ∃ o ∈ Clause.openings (before ++ (x, 0) :: behind), o.clause = c := by
  induction before with
  | nil => exact ⟨⟨c, x.position⟩, by simp [Clause.openings, h], rfl⟩
  | cons y before ih =>
    obtain ⟨o, ho, hc⟩ := ih
    refine ⟨o, ?_, hc⟩
    rw [List.cons_append, Clause.openings]
    split
    · exact List.mem_cons_of_mem _ ho
    · exact ho

theorem exists_firstOnly {c : Clause} {seen : List Clause} {located : List LocatedClause} (hs : c ∉ seen)
    (h : ∃ o ∈ located, o.clause = c) : ∃ o ∈ Clause.firstOnly seen located, o.clause = c := by
  induction located generalizing seen with
  | nil =>
    obtain ⟨o, ho, -⟩ := h
    cases ho
  | cons x rest ih =>
    obtain ⟨o, ho, rfl⟩ := h
    rw [Clause.firstOnly]
    by_cases hx : x.clause ∈ seen
    · have hne : o ≠ x := by
        intro he
        subst he
        exact hs hx
      rw [if_pos hx]
      exact ih hs ⟨o, (List.mem_cons.mp ho).resolve_left hne, rfl⟩
    · rw [if_neg hx]
      by_cases hc : x.clause = o.clause
      · exact ⟨x, List.mem_cons_self, hc⟩
      · have hne : o ≠ x := by
          intro he
          subst he
          exact hc rfl
        have hseen : o.clause ∉ x.clause :: seen := by
          simp [Ne.symm hc, hs]
        obtain ⟨o', ho', hco'⟩ := ih hseen ⟨o, (List.mem_cons.mp ho).resolve_left hne, rfl⟩
        exact ⟨o', List.mem_cons_of_mem _ ho', hco'⟩

theorem located_of_opening {lexemes : List Lexeme} {before behind : List (Lexeme × Nat)} {x : Lexeme} {c : Clause}
    (hd : withDepth 0 lexemes = before ++ (x, 0) :: behind) (h : ∀ next, Clause.opened? x next = some c) :
    (Clause.locate lexemes).any (·.clause == c) = true := by
  have hopen : ∃ o ∈ Clause.openings (withDepth 0 lexemes), o.clause = c := by
    rw [hd]
    exact exists_opening h
  simpa [Clause.locate] using exists_firstOnly (List.not_mem_nil) hopen

theorem located_of_sentence {lexemes : List Lexeme} {plan : Plan} (h : Sentence (lexemes.map (·.token)) plan) :
    (Clause.locate lexemes).any (·.clause == .select) = true ∧
      (Clause.locate lexemes).any (·.clause == .from_) = true := by
  obtain ⟨w, is, from_, rest, htokens, hb⟩ := sentence_shape h
  obtain ⟨xs, ys, rfl, hxs, hys⟩ := List.map_eq_append_iff.mp htokens
  obtain ⟨y, ys, rfl, hy, -⟩ := List.map_eq_cons_iff.mp hys
  have hfrom : withDepth 0 (xs ++ y :: ys) = withDepth 0 xs ++ (y, 0) :: withDepth 0 ys := by
    have hdepth : depthAfter 0 (xs.map (·.token)) = 0 := by
      rw [hxs]
      exact hb 0
    simp [withDepth_append, hdepth, withDepth, Lexeme.isSymbol, hy]
  refine ⟨?_, located_of_opening hfrom fun next => by simp [Clause.opened?, hy]⟩
  obtain ⟨x, zs, rfl, hx, -⟩ := List.map_eq_cons_iff.mp hxs
  have hselect : withDepth 0 (x :: zs ++ y :: ys) = [] ++ (x, 0) :: withDepth 0 (zs ++ y :: ys) := by
    simp [withDepth, Lexeme.isSymbol, hx]
  exact located_of_opening hselect fun next => by simp [Clause.opened?, hx]

theorem extract_of_no_with {text : List Char} {lexemes : List Lexeme} (h : Token.lex text = .ok lexemes)
    (hw : ∀ x ∈ lexemes, x.isKeyword .with_ = false) : Hint.extract text = .ok ⟨text, Hints.empty, []⟩ := by
  simp only [Hint.extract, h, bind, Except.bind]
  rw [List.dropWhile_eq_nil_iff.mpr]
  · rfl
  · intro x hx
    simp [hw x.1 (mem_of_mem_withDepth hx)]

/-! ## Texts -/

theorem parseClauses_eq_ok {text : List Char} {lexemes : List Lexeme} {plan : Plan}
    (h : Token.lex text = .ok lexemes) :
    parseClauses text = .ok plan ↔ Sentence (lexemes.map (·.token)) plan := by
  constructor
  · intro hp
    simp only [parseClauses, h, bind, Except.bind] at hp
    split at hp
    · cases hp
    · split at hp
      · cases hp
      · cases hr : run State.start lexemes with
        | ok plan' =>
          rw [hr] at hp
          cases hp
          exact run_eq_ok_iff.mp hr
        | error x =>
          rw [hr] at hp
          cases hp
  · intro hs
    obtain ⟨hselect, hfrom⟩ := located_of_sentence hs
    have hrun := run_eq_ok_iff.mpr hs
    simp only [parseClauses, h, bind, Except.bind, hselect, hfrom, hrun]
    rfl

/-- Without the word `WITH` a text gives the plan that its tokens say, if they are a sentence. -/
theorem parse_eq_ok {sql : String} {lexemes : List Lexeme} {plan : Plan}
    (h : Token.lex (body sql.toList) = .ok lexemes) (hw : ∀ x ∈ lexemes, x.isKeyword .with_ = false) :
    parse sql = .ok plan ↔ Sentence (lexemes.map (·.token)) plan := by
  by_cases hb : body sql.toList = []
  · have hnil : lexemes = [] := by
      rw [hb, Token.lex, Token.lexFrom] at h
      exact (Except.ok.inj h).symm
    have hfail : parse sql = .error .emptyQuery := by
      simp only [parse, hb]
      rfl
    rw [hfail, hnil]
    constructor
    · intro hp
      cases hp
    · intro hs
      obtain ⟨w, is, from_, rest, htokens, -⟩ := sentence_shape hs
      cases htokens
  · have hparse : parse sql = (parseClauses (body sql.toList)).map fun plan => { plan with hints := Hints.empty } := by
      simp only [parse, List.isEmpty_iff, hb, bind, Except.bind, extract_of_no_with h hw]
      rfl
    rw [hparse]
    constructor
    · intro hp
      obtain ⟨plan', hc, rfl⟩ : ∃ plan', parseClauses (body sql.toList) = .ok plan' ∧
          { plan' with hints := Hints.empty } = plan := by
        cases hc : parseClauses (body sql.toList) with
        | ok plan' => exact ⟨plan', rfl, by rw [hc] at hp; exact Except.ok.inj hp⟩
        | error m =>
          rw [hc] at hp
          cases hp
      have hs := (parseClauses_eq_ok h).mp hc
      rw [← hints_of_sentence hs]
      exact hs
    · intro hs
      rw [(parseClauses_eq_ok h).mpr hs, Except.map, ← hints_of_sentence hs]

/-- The parser takes the sentences of the grammar, with their plans, and refuses all else: rows of tokens
as they stand, and texts without the word `WITH` by their tokens. -/
theorem parser_agrees_with_grammar :
    (∀ (lexemes : List Lexeme) (plan : Plan),
      run State.start lexemes = .ok plan ↔ Sentence (lexemes.map (·.token)) plan) ∧
    ∀ (sql : String) (lexemes : List Lexeme), Token.lex (body sql.toList) = .ok lexemes →
      (∀ x ∈ lexemes, x.isKeyword .with_ = false) →
      (∀ plan, parse sql = .ok plan ↔ Sentence (lexemes.map (·.token)) plan) ∧
      ((∀ plan, ¬Sentence (lexemes.map (·.token)) plan) → ∃ m, parse sql = .error m) := by
  refine ⟨fun lexemes plan => run_eq_ok_iff, fun sql lexemes h hw => ⟨fun plan => parse_eq_ok h hw, fun hno => ?_⟩⟩
  cases hp : parse sql with
  | ok plan => exact absurd ((parse_eq_ok h hw).mp hp) (hno plan)
  | error m => exact ⟨m, rfl⟩

/-- Products bind tighter than sums. -/
theorem parse_sum_of_product :
    Token.lex (body "SELECT a + 2 * b FROM t".toList) = .ok
      [⟨.keyword .select "SELECT", 0, 6, 1⟩, ⟨.identifier "a", 7, 1, 1⟩, ⟨.symbol .plus, 9, 1, 1⟩, ⟨.integer 2, 11, 1, 1⟩,
        ⟨.symbol .star, 13, 1, 1⟩, ⟨.identifier "b", 15, 1, 1⟩, ⟨.keyword .from_ "FROM", 17, 4, 1⟩,
        ⟨.identifier "t", 22, 1, 1⟩] ∧
    parse "SELECT a + 2 * b FROM t" = .ok { Plan.blank with
      select := [⟨.expr (.binary .add (.column "a") (.binary .mul (.literal (.number (.int 2))) (.column "b"))), none⟩]
      table := "t" } := by
  have hlex : Token.lex (body "SELECT a + 2 * b FROM t".toList) = .ok
      [⟨.keyword .select "SELECT", 0, 6, 1⟩, ⟨.identifier "a", 7, 1, 1⟩, ⟨.symbol .plus, 9, 1, 1⟩, ⟨.integer 2, 11, 1, 1⟩,
        ⟨.symbol .star, 13, 1, 1⟩, ⟨.identifier "b", 15, 1, 1⟩, ⟨.keyword .from_ "FROM", 17, 4, 1⟩,
        ⟨.identifier "t", 22, 1, 1⟩] := by cbv
  have hproduct : Expression 2 [.integer 2, .symbol .star, .identifier "b"] _ :=
    .binary .mul (Nat.le_refl 2) (.integer 2) (.column (.single "b"))
  have hsum : Expression 0 [.identifier "a", .symbol .plus, .integer 2, .symbol .star, .identifier "b"] _ :=
    .binary .add (Nat.zero_le 1) (.column (.single "a")) hproduct
  have hselect := Select.mk "SELECT" "FROM" .absent (.single (.bare (.expr hsum))) (.column (.single "t")) .none .absent
    .absent .absent .absent .absent .absent
  exact ⟨hlex, ((parser_agrees_with_grammar.2 _ _ hlex (by decide)).1 _).mpr (.bare hselect)⟩

end JsonTables.Statement
