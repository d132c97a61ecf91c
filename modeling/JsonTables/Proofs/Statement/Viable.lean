/-
  JsonTables.Proofs.Statement.Viable — which tokens a statement may begin with.

  Whatever has been read can be completed: what waits in the frames and the links takes an operand and the
  parentheses that are missing, and what comes before the tables takes some table. So the reader stops at a
  token just where no sentence goes on with it, and there is no later or earlier place to stop.

  Proved:
  - `viable_of_reads`: what leads to a state is the beginning of a sentence.
  - `run_error_token_iff`, `run_error_end_iff`: where the reader stops.
-/

import JsonTables.Proofs.Statement.Exact

namespace JsonTables.Statement

open Grammar

/-- Some sentence begins with the tokens. -/
def Viable (ts : List Token) : Prop := ∃ us plan, Sentence (ts ++ us) plan

theorem Viable.of_append {ts us : List Token} (h : Viable (ts ++ us)) : Viable ts := by
  obtain ⟨vs, plan, h⟩ := h
  exact ⟨us ++ vs, plan, by simpa using h⟩

theorem Viable.front {ts us vs : List Token} (h : Viable (ts ++ (us ++ vs))) : Viable (ts ++ us) := by
  rw [← List.append_assoc] at h
  exact h.of_append

theorem Viable.without {ts vs : List Token} (h : Viable vs) (us : List Token) (he : vs = ts ++ us) : Viable ts :=
  (he ▸ h).of_append

/-! ## Expressions and conditions -/

/-- The frames take the operand, and closing parentheses, as parts of one expression. -/
theorem FramesHold.completes {n : Nat} {ts : List Token} {fs : List Frame} {e : Expr} (h : FramesHold n ts fs e) :
    ∃ vs e', Expression 0 (ts ++ vs) e' := by
  obtain @⟨ts, us, fs, e, hf, he, hneed⟩ := h
  induction hf generalizing n us e with
  | nil => exact ⟨[], e, by simpa using he.mono (Nat.zero_le n)⟩
  | negate hf ih =>
    obtain ⟨vs, e', h⟩ := ih (need_le _) (expression_negated (Nat.le_refl 3) (he.mono hneed))
    exact ⟨vs, e', by simpa using h⟩
  | binary op hf hop hl ih =>
    obtain ⟨vs, e', h⟩ := ih hop (.binary op (Nat.le_refl _) hl (he.mono hneed))
    exact ⟨vs, e', by simpa using h⟩
  | group hf ih =>
    obtain ⟨vs, e', h⟩ := ih (need_le _) (.paren (he.mono (Nat.zero_le n)))
    exact ⟨.symbol .rightParen :: vs, e', by simpa using h⟩
  | argument hf ht hb ih =>
    obtain ⟨vs, e', h⟩ := ih (need_le _) (.call ht (hb.expressions (he.mono (Nat.zero_le n))))
    exact ⟨.symbol .rightParen :: vs, e', by simpa using h⟩

/-- The links take the condition, and closing parentheses, as parts of one condition. -/
theorem LinksHold.completes {n : Nat} {ts : List Token} {ls : List Link} {p : Predicate} (h : LinksHold n ts ls p)
    (hn : n ≤ 3) : ∃ vs q, Condition 0 (ts ++ vs) q := by
  obtain @⟨ts, us, ls, p, hl, hp, hneed⟩ := h
  induction hl generalizing n us p with
  | nil => exact ⟨[], p, by simpa using hp.mono (Nat.zero_le n)⟩
  | compare => exact absurd (Nat.le_trans hneed hn) (show ¬4 ≤ 3 by decide)
  | and w hl hls hq ih =>
    obtain ⟨vs, q, h⟩ := ih (show 2 ≤ 3 by decide) hls (.and w (Nat.le_refl 2) hq (hp.mono hneed))
    exact ⟨vs, q, by simpa using h⟩
  | or w hl hls hq ih =>
    obtain ⟨vs, q, h⟩ := ih (show 1 ≤ 3 by decide) hls (.or w (Nat.le_refl 1) hq (hp.mono hneed))
    exact ⟨vs, q, by simpa using h⟩
  | group hl hls ih =>
    obtain ⟨vs, q, h⟩ := ih (Nat.le_refl 3) hls (.paren (hp.mono (Nat.zero_le n)))
    exact ⟨.symbol .rightParen :: vs, q, by simpa using h⟩

/-! ## Statements so far -/

section

variable {ts us : List Token} {plan : Plan}

theorem Through.viable {r : Nat} (h : Through r ts plan) : Viable ts :=
  ⟨[], plan, by simpa using Sentence.bare h.select⟩

theorem AfterItem.viable (h : AfterItem ts plan) : Viable ts := by
  have htable := (Through.table h "FROM" (.column (.single "x"))).viable
  exact htable.of_append.of_append

theorem BeforeItem.viable (h : BeforeItem ts plan) : Viable ts :=
  (h.item .star).viable.of_append

theorem Opened.viable {filter : Filter} {p : Predicate} (h : Opened ts plan filter) (hp : Condition 0 us p) :
    Viable (ts ++ us) := (h.close hp).viable

theorem SlotRead.viable {slot : Slot} {e : Expr} (h : SlotRead ts plan slot) (he : Expression 0 us e) :
    Viable (ts ++ us) := by
  cases h with
  | item hb => exact (hb.item (.bare (.expr he))).viable
  | partition o w by_ hb ht hp =>
    have hw := WindowCall.mk o ht (.present w by_ (hp.expressions he)) .absent
    have hitem := (hb.item (.bare (.window hw))).viable
    exact hitem.without [.symbol .rightParen] (by simp)
  | rank o w by_ hb ht hps hp =>
    have hw := WindowCall.mk o ht hps (.present w by_ (hp.orderKeys (.bare he)))
    have hitem := (hb.item (.bare (.window hw))).viable
    exact hitem.without [.symbol .rightParen] (by simp)
  | groupBy k by_ ht hr hp =>
    have hthrough := (ht.groupBy hr k by_ (hp.expressions he)).viable
    simpa using hthrough
  | orderBy k by_ ht hr hp =>
    have hthrough := (ht.orderBy hr k by_ (hp.orderKeys (.bare he))).viable
    simpa using hthrough
  | condition ho hl =>
    obtain ⟨vs, q, hq⟩ := (hl.conclude he).completes (Nat.le_refl 3)
    have hopened := ho.viable hq
    exact hopened.without vs (by simp)

/-- What stands ready in a slot completes the slot. -/
theorem SlotRead.viable_value {n : Nat} {slot : Slot} {frames : List Frame} {e : Expr} (h : SlotRead ts plan slot)
    (hf : FramesHold n us frames e) : Viable (ts ++ us) := by
  obtain ⟨vs, e', he⟩ := hf.completes
  exact (h.viable he).front

theorem SlotRead.viable_operand {slot : Slot} {frames : List Frame} (h : SlotRead ts plan slot) (hf : FramesRead us frames) :
    Viable (ts ++ us) :=
  (h.viable_value (.three hf (.column (.single "x")))).front

theorem SlotRead.viable_call {slot : Slot} {frames : List Frame} {t : Token} {name : String} (h : SlotRead ts plan slot)
    (hf : FramesRead us frames) (ht : FunctionName t name) :
    Viable (ts ++ us ++ [t, .symbol .leftParen, .symbol .rightParen]) := by
  have hvalue := h.viable_value (.three hf (.callEmpty ht))
  rwa [← List.append_assoc] at hvalue

theorem BeforeItem.viable_window {w : Window} (h : BeforeItem ts plan) (hw : WindowCall us w) : Viable (ts ++ us) :=
  (h.item (.bare (.window hw))).viable

theorem TargetRead.viable_leftKey {kind : JoinKind} {table name : String} (h : TargetRead ts plan (.leftKey kind table))
    (hc : Column us name) : Viable (ts ++ us) := by
  have hjoin := ((TargetRead.rightKey h hc).join (.single "x")).viable
  exact hjoin.of_append.of_append

theorem TargetRead.viable_joined {kind : JoinKind} {table : String} (h : TargetRead ts plan (.joined kind))
    (hp : TablePath us table) : Viable (ts ++ us) := by
  have hkey := (TargetRead.leftKey "ON" h hp).viable_leftKey (.single "x")
  exact hkey.of_append.of_append

theorem TargetRead.viable {target : Target} {name : String} (h : TargetRead ts plan target) (hc : Column us name) :
    Viable (ts ++ us) := by
  cases target with
  | table =>
    obtain ⟨w, ha⟩ := h
    exact (Through.table ha w (.column hc)).viable
  | joined kind => exact h.viable_joined (.column hc)
  | leftKey kind table => exact h.viable_leftKey hc
  | rightKey kind table left => exact (h.join hc).viable

end

/-! ## States -/

/-- What leads to a state is the beginning of a sentence. -/
theorem viable_of_reads {ts : List Token} {s : State} (h : Reads ts s) : Viable ts := by
  cases h with
  | start => exact (BeforeItem.mk "SELECT" .absent .nothing).viable.without _ (List.nil_append _).symm
  | selecting w => exact (BeforeItem.mk w .absent .nothing).viable
  | operand hs hf => exact hs.viable_operand hf
  | name hs hf hc hb =>
    have hvalue := hs.viable_value (.three hf (.column hc))
    rwa [← List.append_assoc] at hvalue
  | dot hs hf hc =>
    have hvalue := hs.viable_value (.three hf (.column (.dotted "x" hc)))
    exact hvalue.without [.identifier "x"] (by simp)
  | callee hs hf ht =>
    exact (hs.viable_call hf ht).without [.symbol .leftParen, .symbol .rightParen] (by simp)
  | arguments hs hf ht =>
    exact (hs.viable_call hf ht).without [.symbol .rightParen] (by simp)
  | starArgument hs hf ht =>
    have hvalue := hs.viable_value (.three hf (.callStar ht))
    exact hvalue.without [.symbol .rightParen] (by simp)
  | emptyCall hb ht => exact (hb.item (.bare (.expr (.callEmpty ht)))).viable
  | value hs hf => exact hs.viable_value hf
  | predicate ho hl =>
    obtain ⟨vs, q, hq⟩ := hl.completes (Nat.le_refl 3)
    exact (ho.viable hq).front
  | over_ o hb ht =>
    exact (hb.viable_window (.mk o ht .absent .absent)).without [.symbol .leftParen, .symbol .rightParen] (by simp)
  | window o hb ht =>
    exact (hb.viable_window (.mk o ht .absent .absent)).without [.symbol .rightParen] (by simp)
  | ranked hb hw => exact hb.viable_window hw
  | star hb => exact (hb.item .star).viable
  | label w hb hc =>
    exact (hb.item (.labelled w hc (.identifier "x"))).viable.without [.identifier "x"] (by simp)
  | itemDone ha => exact ha.viable
  | by_ hs =>
    have hoperand := (hs "BY").viable_operand .nil
    rw [List.append_nil] at hoperand
    exact hoperand.of_append
  | directedRank o w by_ hb ht hps ho =>
    exact (hb.viable_window (.mk o ht hps (.present w by_ ho))).without [.symbol .rightParen] (by simp)
  | directedOrder k by_ ht hr ho => exact (ht.orderBy hr k by_ ho).viable
  | path ht => exact (ht.viable (.single "x")).of_append
  | pathName ht hc => exact ht.viable hc
  | pathDot ht hc =>
    exact (ht.viable (.dotted "x" hc)).without [.identifier "x"] (by simp)
  | tables ht => exact ht.viable
  | outerKind ht hk ho =>
    have hjoined := (TargetRead.joined "JOIN" ht hk).viable (.single "x")
    exact hjoined.of_append.of_append
  | joinWord ht hk =>
    have hjoined := (TargetRead.joined "JOIN" ht hk).viable (.single "x")
    exact hjoined.of_append.of_append
  | joinedTable ht hp => exact ht.viable_joined hp
  | limit k ht hr =>
    exact (ht.limit hr k 0).viable.without [.integer 0] (by simp)
  | offset k ht hr =>
    exact (ht.offset hr k 0).viable.without [.integer 0] (by simp)
  | counted ht => exact ht.viable
  | finished hs => exact ⟨[], _, by simpa using Sentence.closed hs⟩

/-- Tokens lead to a state just if a sentence begins with them. -/
theorem viable_iff {ts : List Token} : Viable ts ↔ ∃ s, steps State.start ts = some s := by
  constructor
  · intro h
    obtain ⟨us, plan, h⟩ := h
    obtain ⟨s, hs, -⟩ := plan_of_sentence h
    rw [steps_append] at hs
    obtain ⟨s', hs', -⟩ := Option.bind_eq_some_iff.mp hs
    exact ⟨s', hs'⟩
  · intro h
    obtain ⟨s, hs⟩ := h
    exact viable_of_reads (reads_steps .start hs)

/-! ## Runs -/

/-- A place in a row is its first place or one behind it. -/
theorem exists_place_cons {α : Type} {p : List α → Prop} {x y : α} {rest : List α} :
    (∃ xs ys, y :: rest = xs ++ x :: ys ∧ p xs) ↔ (y = x ∧ p []) ∨ ∃ xs ys, rest = xs ++ x :: ys ∧ p (y :: xs) := by
  constructor
  · rintro ⟨xs, ys, hsplit, hp⟩
    cases xs with
    | nil => exact .inl ⟨(List.cons.inj hsplit).1, hp⟩
    | cons z xs =>
      obtain ⟨rfl, hrest⟩ := List.cons.inj hsplit
      exact .inr ⟨xs, ys, hrest, hp⟩
  · rintro (⟨rfl, hp⟩ | ⟨xs, ys, rfl, hp⟩)
    · exact ⟨[], rest, rfl, hp⟩
    · exact ⟨y :: xs, ys, rfl, hp⟩

theorem run_eq_error_token {s : State} {lexemes : List Lexeme} {x : Lexeme} :
    run s lexemes = .error (some x) ↔ ∃ xs ys, lexemes = xs ++ x :: ys ∧
      ∃ s', steps s (xs.map (·.token)) = some s' ∧ s'.step x.token = none := by
  induction lexemes generalizing s with
  | nil =>
    have hrun : run s [] ≠ .error (some x) := by
      rw [run]
      split <;> simp
    simp [hrun]
  | cons y rest ih =>
    rw [exists_place_cons]
    cases hs : s.step y.token with
    | some s₁ =>
      have hrun : run s (y :: rest) = run s₁ rest := by rw [run, hs]
      rw [hrun, ih, or_iff_right]
      · simp [hs]
      · rintro ⟨rfl, s', hs', hx⟩
        cases hs'
        cases hs.symm.trans hx
    | none =>
      have hrun : run s (y :: rest) = .error (some y) := by rw [run, hs]
      rw [hrun]
      constructor
      · intro h
        cases h
        exact .inl ⟨rfl, s, rfl, hs⟩
      · rintro (⟨rfl, -⟩ | ⟨xs, ys, -, s', hxs, -⟩)
        · rfl
        · simp [hs] at hxs

/-- The reader stops at the first token with which no sentence goes on. -/
theorem run_error_token_iff {lexemes : List Lexeme} {x : Lexeme} :
    run State.start lexemes = .error (some x) ↔ ∃ xs ys, lexemes = xs ++ x :: ys ∧
      Viable (xs.map (·.token)) ∧ ¬Viable ((xs ++ [x]).map (·.token)) := by
  rw [run_eq_error_token]
  refine exists_congr fun xs => exists_congr fun ys => and_congr_right fun _ => ?_
  rw [List.map_append, viable_iff, viable_iff, steps_append]
  constructor
  · intro h
    obtain ⟨s', hs', hx⟩ := h
    exact ⟨⟨s', hs'⟩, by simp [hs', hx]⟩
  · intro h
    obtain ⟨⟨s', hs'⟩, hx⟩ := h
    refine ⟨s', hs', ?_⟩
    simpa [hs', Option.eq_none_iff_forall_ne_some] using hx

theorem run_eq_error_end {s : State} {lexemes : List Lexeme} :
    run s lexemes = .error none ↔ ∃ s', steps s (lexemes.map (·.token)) = some s' ∧ s'.plan? = none := by
  induction lexemes generalizing s with
  | nil =>
    cases hp : s.plan? with
    | some p => simp [run, hp]
    | none => simp [run, hp]
  | cons x xs ih =>
    cases hs : s.step x.token with
    | some s₁ => simp [run, hs, ih]
    | none => simp [run, hs]

/-- The reader stops at the end if the tokens only begin a sentence. -/
theorem run_error_end_iff {lexemes : List Lexeme} :
    run State.start lexemes = .error none ↔
      Viable (lexemes.map (·.token)) ∧ ∀ plan, ¬Sentence (lexemes.map (·.token)) plan := by
  rw [run_eq_error_end]
  constructor
  · intro h
    obtain ⟨s, hs, hp⟩ := h
    refine ⟨viable_iff.mpr ⟨s, hs⟩, fun plan hsentence => ?_⟩
    obtain ⟨s', hs', hp'⟩ := plan_of_sentence hsentence
    obtain rfl : s = s' := Option.some.inj (hs.symm.trans hs')
    rw [hp] at hp'
    cases hp'
  · intro h
    obtain ⟨hviable, hno⟩ := h
    obtain ⟨s, hs⟩ := viable_iff.mp hviable
    exact ⟨s, hs, Option.eq_none_iff_forall_ne_some.mpr fun plan hp => hno plan (sentence_of_plan hs hp)⟩

end JsonTables.Statement
