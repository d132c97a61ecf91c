/-
  JsonTables.Proofs.Statement.Sound — the reader of statements takes nothing but sentences of the grammar.

  `Reads` says, mode by mode, what the tokens so far make: which parts of the statement are complete and
  what waits for more. Every step keeps it, and in the states in which a statement may end it is a
  derivation of the plan.

  Proved:
  - `Reads.step`: one token more keeps what is known, and `reads_steps`: so do many.
  - `sentence_of_plan`: where a plan is made, the tokens are a sentence that says it.
-/

import JsonTables.Proofs.Statement.Readings

namespace JsonTables.Statement

open Grammar

/-! ## Slots -/

/-- The tokens up to the word that opens a condition. -/
inductive Opened : List Token → Plan → Filter → Prop
  | where_ {r : Nat} {ts : List Token} {plan : Plan} (k : String) : Through r ts plan → r < 2 →
      Opened (ts ++ [.keyword .where_ k]) plan .where_
  | having {r : Nat} {ts : List Token} {plan : Plan} (k : String) : Through r ts plan → r < 4 →
      Opened (ts ++ [.keyword .having k]) plan .having

theorem Opened.close {ts us : List Token} {plan : Plan} {filter : Filter} {p : Predicate}
    (h : Opened ts plan filter) (hp : Condition 0 us p) :
    Through (rank filter.clause) (ts ++ us) (setFilter plan p filter) := by
  cases h with
  | where_ k ht hr => exact ht.where_ hr k hp
  | having k ht hr => exact ht.having hr k hp

/-- The tokens in front of an expression in a slot. -/
inductive SlotRead : List Token → Plan → Slot → Prop
  | item {ts : List Token} {plan : Plan} : BeforeItem ts plan → SlotRead ts plan .item
  | partition {ts us : List Token} {plan : Plan} {t : Token} {name : String} {before : List Expr}
      (o w by_ : String) : BeforeItem ts plan → FunctionName t name → Preceding Expressions us before.reverse →
      SlotRead (ts ++ [t, .symbol .leftParen, .symbol .rightParen, .keyword .over_ o, .symbol .leftParen,
        .keyword .partition w, .keyword .by_ by_] ++ us) plan (.partition name before)
  | rank {ts ps us : List Token} {plan : Plan} {t : Token} {name : String} {partition : List Expr}
      {before : List OrderItem} (o w by_ : String) : BeforeItem ts plan → FunctionName t name →
      ListClause .partition ps partition → Preceding OrderKeys us before.reverse →
      SlotRead (ts ++ [t, .symbol .leftParen, .symbol .rightParen, .keyword .over_ o, .symbol .leftParen] ++ ps ++
        [.keyword .order w, .keyword .by_ by_] ++ us) plan (.rank name partition before)
  | groupBy {r : Nat} {ts us : List Token} {plan : Plan} {es : List Expr} (k by_ : String) : Through r ts plan →
      r < 3 → Preceding Expressions us es →
      SlotRead (ts ++ [.keyword .group k, .keyword .by_ by_] ++ us) { plan with groupBy := es } .groupBy
  | orderBy {r : Nat} {ts us : List Token} {plan : Plan} {os : List OrderItem} (k by_ : String) :
      Through r ts plan → r < 5 → Preceding OrderKeys us os →
      SlotRead (ts ++ [.keyword .order k, .keyword .by_ by_] ++ us) { plan with orderBy := os } .orderBy
  | condition {ts us : List Token} {plan : Plan} {filter : Filter} {links : List Link} : Opened ts plan filter →
      LinksRead us links → SlotRead (ts ++ us) plan (.condition filter links)

theorem FramesHold.nil {n : Nat} {ts : List Token} {e : Expr} (h : FramesHold n ts [] e) : Expression n ts e := by
  obtain ⟨hf, he, -⟩ := h
  cases hf
  exact he

theorem LinksHold.nil {n : Nat} {ts : List Token} {p : Predicate} (h : LinksHold n ts [] p) : Condition n ts p := by
  obtain ⟨hl, hp, -⟩ := h
  cases hl
  exact hp

theorem closeFilter_reads {ts us : List Token} {plan plan' : Plan} {filter : Filter} {links : List Link}
    {p : Predicate} {c : Clause} (ho : Opened ts plan filter) (hl : LinksHold 3 us links p)
    (h : closeFilter plan filter links p = some (plan', c)) : Through (rank c) (ts ++ us) plan' := by
  have hall := hl.joinAll (by decide) (by decide)
  unfold closeFilter at h
  split at h
  · rename_i q hq
    obtain ⟨rfl, rfl⟩ : setFilter plan q filter = plan' ∧ filter.clause = c := by simpa using h
    rw [hq] at hall
    exact ho.close (hall.nil.mono (by decide))
  · cases h

theorem closeSlot_reads {ts us : List Token} {plan plan' : Plan} {slot : Slot} {e : Expr} {c : Clause}
    (hs : SlotRead ts plan slot) (he : Expression 0 us e) (h : closeSlot plan e slot = some (plan', c)) :
    Through (rank c) (ts ++ us) plan' := by
  cases hs with
  | item => cases h
  | partition => cases h
  | rank => cases h
  | groupBy k by_ ht hr hp =>
    cases h
    simpa [rank] using ht.groupBy hr k by_ (hp.expressions he)
  | orderBy k by_ ht hr hp =>
    cases h
    simpa [rank] using ht.orderBy hr k by_ (hp.orderKeys (.bare he))
  | condition ho hl =>
    have ht := closeFilter_reads ho (hl.conclude he) h
    simpa using ht

/-! ## Targets -/

/-- The tokens in front of a path. -/
inductive TargetRead : List Token → Plan → Target → Prop
  | table {ts : List Token} {plan : Plan} (w : String) : AfterItem ts plan →
      TargetRead (ts ++ [.keyword .from_ w]) plan .table
  | joined {ts ks : List Token} {plan : Plan} {kind : JoinKind} (w : String) : Through 1 ts plan →
      JoinWords ks kind → TargetRead (ts ++ ks ++ [.keyword .join w]) plan (.joined kind)
  | leftKey {ts us : List Token} {plan : Plan} {kind : JoinKind} {table : String} (w : String) :
      TargetRead ts plan (.joined kind) → TablePath us table →
      TargetRead (ts ++ us ++ [.keyword .on_ w]) plan (.leftKey kind table)
  | rightKey {ts us : List Token} {plan : Plan} {kind : JoinKind} {table left : String} :
      TargetRead ts plan (.leftKey kind table) → Column us left →
      TargetRead (ts ++ us ++ [.symbol .equal]) plan (.rightKey kind table left)

theorem TargetRead.join {ts us : List Token} {plan : Plan} {kind : JoinKind} {table left right : String}
    (h : TargetRead ts plan (.rightKey kind table left)) (hr : Column us right) :
    Through 1 (ts ++ us) (addJoin plan ⟨kind, table, left, right⟩) := by
  obtain _ | _ | _ | ⟨h, hl⟩ := h
  obtain _ | _ | ⟨on_, h, hp⟩ := h
  obtain _ | ⟨w, ht, hk⟩ := h
  simpa using ht.join (.mk w on_ hk hp hl hr)

/-! ## What a state says -/

/-- What the tokens read so far make, in the state that they lead to. -/
inductive Reads : List Token → State → Prop
  | start : Reads [] State.start
  | selecting (w : String) : Reads [.keyword .select w] ⟨Plan.blank, .selecting⟩
  | operand {ts us : List Token} {plan : Plan} {slot : Slot} {frames : List Frame} : SlotRead ts plan slot →
      FramesRead us frames → Reads (ts ++ us) ⟨plan, .operand slot frames⟩
  | name {ts us vs : List Token} {plan : Plan} {slot : Slot} {frames : List Frame} {name : String} {bare : Bool} :
      SlotRead ts plan slot → FramesRead us frames → Column vs name → (bare = true → vs = [.identifier name]) →
      Reads (ts ++ us ++ vs) ⟨plan, .name slot frames name bare⟩
  | dot {ts us vs : List Token} {plan : Plan} {slot : Slot} {frames : List Frame} {name : String} :
      SlotRead ts plan slot → FramesRead us frames → Column vs name →
      Reads (ts ++ us ++ vs ++ [.symbol .dot]) ⟨plan, .dot slot frames name⟩
  | callee {ts us : List Token} {plan : Plan} {slot : Slot} {frames : List Frame} {t : Token} {name : String} :
      SlotRead ts plan slot → FramesRead us frames → FunctionName t name →
      Reads (ts ++ us ++ [t]) ⟨plan, .callee slot frames name⟩
  | arguments {ts us : List Token} {plan : Plan} {slot : Slot} {frames : List Frame} {t : Token} {name : String} :
      SlotRead ts plan slot → FramesRead us frames → FunctionName t name →
      Reads (ts ++ us ++ [t, .symbol .leftParen]) ⟨plan, .arguments slot frames name⟩
  | starArgument {ts us : List Token} {plan : Plan} {slot : Slot} {frames : List Frame} {t : Token}
      {name : String} : SlotRead ts plan slot → FramesRead us frames → FunctionName t name →
      Reads (ts ++ us ++ [t, .symbol .leftParen, .symbol .star]) ⟨plan, .starArgument slot frames name⟩
  | emptyCall {ts : List Token} {plan : Plan} {t : Token} {name : String} : BeforeItem ts plan →
      FunctionName t name → Reads (ts ++ [t, .symbol .leftParen, .symbol .rightParen]) ⟨plan, .emptyCall name⟩
  | value {ts us : List Token} {plan : Plan} {slot : Slot} {frames : List Frame} {e : Expr} :
      SlotRead ts plan slot → FramesHold 3 us frames e → Reads (ts ++ us) ⟨plan, .value slot frames e⟩
  | predicate {ts us : List Token} {plan : Plan} {filter : Filter} {links : List Link} {p : Predicate} :
      Opened ts plan filter → LinksHold 3 us links p → Reads (ts ++ us) ⟨plan, .predicate filter links p⟩
  | over_ {ts : List Token} {plan : Plan} {t : Token} {name : String} (o : String) : BeforeItem ts plan →
      FunctionName t name →
      Reads (ts ++ [t, .symbol .leftParen, .symbol .rightParen, .keyword .over_ o]) ⟨plan, .over_ name⟩
  | window {ts : List Token} {plan : Plan} {t : Token} {name : String} (o : String) : BeforeItem ts plan →
      FunctionName t name →
      Reads (ts ++ [t, .symbol .leftParen, .symbol .rightParen, .keyword .over_ o, .symbol .leftParen])
        ⟨plan, .window name⟩
  | ranked {ts us : List Token} {plan : Plan} {w : Window} : BeforeItem ts plan → WindowCall us w →
      Reads (ts ++ us) ⟨plan, .ranked w⟩
  | star {ts : List Token} {plan : Plan} : BeforeItem ts plan → Reads (ts ++ [.symbol .star]) ⟨plan, .star⟩
  | label {ts us : List Token} {plan : Plan} {c : Selected} (w : String) : BeforeItem ts plan →
      ItemContent us c → Reads (ts ++ us ++ [.keyword .as_ w]) ⟨plan, .label c⟩
  | itemDone {ts : List Token} {plan : Plan} : AfterItem ts plan → Reads ts ⟨plan, .itemDone⟩
  | by_ {ts : List Token} {plan : Plan} {slot : Slot} :
      (∀ w, SlotRead (ts ++ [.keyword .by_ w]) plan slot) → Reads ts ⟨plan, .by_ slot⟩
  | directedRank {ts ps us : List Token} {plan : Plan} {t : Token} {name : String} {partition : List Expr}
      {before : List OrderItem} (o w by_ : String) : BeforeItem ts plan → FunctionName t name →
      ListClause .partition ps partition → OrderKeys us before.reverse →
      Reads (ts ++ [t, .symbol .leftParen, .symbol .rightParen, .keyword .over_ o, .symbol .leftParen] ++ ps ++
        [.keyword .order w, .keyword .by_ by_] ++ us) ⟨plan, .directed (.rank name partition before)⟩
  | directedOrder {r : Nat} {ts us : List Token} {plan : Plan} {os : List OrderItem} (k by_ : String) :
      Through r ts plan → r < 5 → OrderKeys us os →
      Reads (ts ++ [.keyword .order k, .keyword .by_ by_] ++ us) ⟨{ plan with orderBy := os }, .directed .orderBy⟩
  | path {ts : List Token} {plan : Plan} {target : Target} : TargetRead ts plan target →
      Reads ts ⟨plan, .path target⟩
  | pathName {ts us : List Token} {plan : Plan} {target : Target} {name : String} : TargetRead ts plan target →
      Column us name → Reads (ts ++ us) ⟨plan, .pathName target name⟩
  | pathDot {ts us : List Token} {plan : Plan} {target : Target} {name : String} : TargetRead ts plan target →
      Column us name → Reads (ts ++ us ++ [.symbol .dot]) ⟨plan, .pathDot target name⟩
  | tables {ts : List Token} {plan : Plan} : Through 1 ts plan → Reads ts ⟨plan, .tables⟩
  | outerKind {ts : List Token} {plan : Plan} {t : Token} {kind : JoinKind} : Through 1 ts plan →
      JoinWords [t] kind → (∀ o, JoinWords [t, .keyword .outer o] kind) →
      Reads (ts ++ [t]) ⟨plan, .outerKind kind⟩
  | joinWord {ts ks : List Token} {plan : Plan} {kind : JoinKind} : Through 1 ts plan → JoinWords ks kind →
      Reads (ts ++ ks) ⟨plan, .joinWord kind⟩
  | joinedTable {ts us : List Token} {plan : Plan} {kind : JoinKind} {table : String} :
      TargetRead ts plan (.joined kind) → TablePath us table → Reads (ts ++ us) ⟨plan, .joinedTable kind table⟩
  | limit {r : Nat} {ts : List Token} {plan : Plan} (k : String) : Through r ts plan → r < 6 →
      Reads (ts ++ [.keyword .limit k]) ⟨plan, .count .limit⟩
  | offset {r : Nat} {ts : List Token} {plan : Plan} (k : String) : Through r ts plan → r < 7 →
      Reads (ts ++ [.keyword .offset k]) ⟨plan, .count .offset⟩
  | counted {ts : List Token} {plan : Plan} {c : Clause} : Through (rank c) ts plan → Reads ts ⟨plan, .counted c⟩
  | finished {ts : List Token} {plan : Plan} : Select ts plan →
      Reads (ts ++ [.symbol .semicolon]) ⟨plan, .finished⟩

theorem expression_of_literal {n : Nat} {t : Token} {l : Literal} (h : literal? t = some l) :
    Expression n [t] (.literal l) := by
  unfold literal? at h
  split at h <;> cases h <;> constructor

namespace Reads

theorem of_eq {ts us : List Token} {s : State} (h : Reads ts s) (he : ts = us) : Reads us s := he ▸ h

/-! ## The ends of names and clauses -/

theorem settled {ts : List Token} {s : State} (h : Reads ts s) : Reads ts s.settled := by
  have h' := h
  cases h
  case name hs hf hc hb => exact (value hs (.three hf (.column hc))).of_eq (by simp)
  case emptyCall hb ht => exact value (.item hb) (.three .nil (.callEmpty ht))
  case pathName target name ht hc =>
    cases target with
    | table =>
      obtain ⟨w, ha⟩ := ht
      exact tables (Through.table ha w (.column hc))
    | joined kind => exact joinedTable ht (.column hc)
    | leftKey kind table => exact h'
    | rightKey kind table left => exact tables (ht.join hc)
  all_goals exact h'

theorem close? {ts : List Token} {s : State} {plan : Plan} {c : Clause} (h : Reads ts s)
    (hc : s.close? = some (plan, c)) : Through (rank c) ts plan := by
  cases h
  case value hs hf =>
    simp only [State.close?] at hc
    have h0 := hf.reduce (Nat.zero_le 3) (Nat.zero_le 2)
    split at hc
    · rename_i e hr
      rw [hr] at h0
      exact closeSlot_reads hs h0.nil hc
    · cases hc
  case predicate ho hl => exact closeFilter_reads ho hl hc
  case directedOrder k by_ ht hr ho =>
    cases hc
    exact ht.orderBy hr k by_ ho
  case tables ht =>
    cases hc
    exact ht
  case counted ht =>
    cases hc
    exact ht
  all_goals cases hc

theorem opening {r : Nat} {ts : List Token} {plan : Plan} {t : Token} {next : Clause} {mode : Mode}
    (ht : Through r ts plan) (hop : opening? t = some (next, mode)) (hr : r < rank next) :
    Reads (ts ++ [t]) ⟨plan, mode⟩ := by
  unfold opening? at hop
  split at hop
  case h_1 k =>
    cases hop
    exact (operand (.condition (.where_ k ht hr) .nil) .nil).of_eq (by simp)
  case h_2 k =>
    cases hop
    have hs (w : String) := SlotRead.groupBy k w ht hr .nothing
    rw [← ht.groupBy_eq_nil hr] at hs
    exact by_ fun w => by simpa using hs w
  case h_3 k =>
    cases hop
    exact (operand (.condition (.having k ht hr) .nil) .nil).of_eq (by simp)
  case h_4 k =>
    cases hop
    have hs (w : String) := SlotRead.orderBy k w ht hr .nothing
    rw [← ht.orderBy_eq_nil hr] at hs
    exact by_ fun w => by simpa using hs w
  case h_5 k =>
    cases hop
    exact limit k ht hr
  case h_6 k =>
    cases hop
    exact offset k ht hr
  case h_7 => cases hop

theorem advance {ts : List Token} {s s' : State} {t : Token} (h : Reads ts s) (ha : s.advance t = some s') :
    Reads (ts ++ [t]) s' := by
  simp only [State.advance, Option.bind_eq_bind, Option.bind_eq_some_iff] at ha
  obtain ⟨⟨plan, c⟩, hc, ha⟩ := ha
  have ht := h.close? hc
  split at ha
  · rename_i hsemi
    cases ha
    rw [hsemi]
    exact finished ht.select
  · obtain ⟨⟨next, mode⟩, hop, ha⟩ := Option.bind_eq_some_iff.mp ha
    split at ha
    · rename_i hr
      cases ha
      exact opening ht hop hr
    · cases ha

theorem extend {ts : List Token} {s s' : State} {t : Token} (h : Reads ts s) (hx : s.extend t = some s') :
    Reads (ts ++ [t]) s' := by
  obtain ⟨plan, mode⟩ := s
  unfold State.extend at hx
  split at hx
  case h_1 hm =>
    obtain rfl : mode = _ := hm
    cases hx
    cases h with
    | name hs hf hc hb => exact dot hs hf hc
  case h_2 hm =>
    obtain rfl : mode = _ := hm
    cases hx
    cases h with
    | name hs hf hc hb =>
      obtain rfl := hb rfl
      exact (arguments hs hf (.identifier _)).of_eq (by simp)
  case h_3 o hm =>
    obtain rfl : mode = _ := hm
    cases hx
    cases h with
    | emptyCall hb ht => exact (over_ o hb ht).of_eq (by simp)
  case h_4 hm =>
    obtain rfl : mode = _ := hm
    cases hx
    cases h with
    | pathName ht hc => exact pathDot ht hc
  case h_5 => cases hx

/-! ## Expressions -/

variable {ts us : List Token} {plan : Plan} {slot : Slot} {frames : List Frame} {filter : Filter}
  {links : List Link} {e : Expr} {p : Predicate} {t : Token}

theorem stepOperand {mode : Mode} (hs : SlotRead ts plan slot) (hf : FramesRead us frames)
    (h : Statement.stepOperand slot frames t = some mode) : Reads (ts ++ us ++ [t]) ⟨plan, mode⟩ := by
  unfold Statement.stepOperand at h
  split at h
  · rename_i l hl
    cases h
    exact (value hs (.three hf (expression_of_literal hl))).of_eq (by simp)
  · split at h
    case h_1 =>
      cases h
      exact name hs hf (.single _) (fun _ => rfl)
    case h_2 w _ =>
      cases h
      exact callee hs hf (.contains w)
    case h_3 w _ =>
      cases h
      exact callee hs hf (.left w)
    case h_4 w _ =>
      cases h
      exact callee hs hf (.right w)
    case h_5 =>
      cases h
      exact (operand hs (.negate hf)).of_eq (by simp)
    case h_6 =>
      cases h
      cases hf
      cases hs with
      | item hb => exact (star hb).of_eq (by simp)
    case h_7 =>
      cases hf
      split at h
      · rename_i hc
        cases h
        cases hs with
        | condition ho hl => exact (operand (.condition ho (.group hl (needLinks_le.mpr hc))) .nil).of_eq (by simp)
      · cases h
        exact (operand hs (.group .nil)).of_eq (by simp)
    case h_8 =>
      cases h
      exact (operand hs (.group hf)).of_eq (by simp)
    case h_9 => cases h

theorem stepPredicate {mode : Mode} (ho : Opened ts plan filter) (hl : LinksHold 3 us links p)
    (h : Statement.stepPredicate filter links p t = some mode) : Reads (ts ++ us ++ [t]) ⟨plan, mode⟩ := by
  unfold Statement.stepPredicate at h
  split at h
  case h_1 w =>
    cases h
    obtain ⟨hr, hp, hn⟩ := hl.joinAnds (by decide) (by decide)
    exact (operand (.condition ho (.and w hr hn hp)) .nil).of_eq (by simp)
  case h_2 w =>
    cases h
    obtain ⟨hr, hp, hn⟩ := hl.joinAll (by decide) (by decide)
    exact (operand (.condition ho (.or w hr hn hp)) .nil).of_eq (by simp)
  case h_3 =>
    have hall := hl.joinAll (by decide) (by decide)
    split at h
    · rename_i hq
      cases h
      rw [hq] at hall
      obtain ⟨hr, hp, -⟩ := hall
      cases hr with
      | group hr hn => exact (predicate ho (.mk hr (.paren (hp.mono (by decide))) hn)).of_eq (by simp)
    · cases h
  case h_4 => cases h

theorem closeParen {mode : Mode} (hs : SlotRead ts plan slot) (he : Expression 0 us e)
    (h : Statement.closeParen e slot = some mode) : Reads (ts ++ us ++ [.symbol .rightParen]) ⟨plan, mode⟩ := by
  cases hs with
  | item => cases h
  | groupBy => cases h
  | orderBy => cases h
  | partition o w by_ hb ht hp =>
    cases h
    have hes := hp.expressions he
    rw [← List.reverse_cons] at hes
    exact (ranked hb (.mk o ht (.present w by_ hes) .absent)).of_eq (by simp)
  | rank o w by_ hb ht hps hp =>
    cases h
    have hos := hp.orderKeys (.bare he)
    rw [← List.reverse_cons] at hos
    exact (ranked hb (.mk o ht hps (.present w by_ hos))).of_eq (by simp)
  | @condition ts vs plan filter links ho hl =>
    unfold Statement.closeParen at h
    split at h
    · rename_i heq
      cases heq
      cases h
      cases hl with
      | group hl hn => exact (value (.condition ho hl) (.three .nil (.paren he))).of_eq (by simp)
    · rename_i heq
      cases heq
      exact (stepPredicate ho (hl.conclude he) h).of_eq (by simp)
    case h_3 heq => cases heq
    case h_4 heq => cases heq
    case h_5 => cases h

theorem nextInSlot {s' : State} (hs : SlotRead ts plan slot) (he : Expression 0 us e)
    (h : Statement.nextInSlot plan e slot = some s') : Reads (ts ++ us ++ [.symbol .comma]) s' := by
  cases hs with
  | item hb =>
    cases h
    exact (operand (.item (hb.item (.bare (.expr he))).comma) .nil).of_eq (by simp)
  | groupBy k by_ ht hr hp =>
    cases h
    exact (operand (.groupBy k by_ ht hr (.comma (hp.expressions he))) .nil).of_eq (by simp)
  | orderBy k by_ ht hr hp =>
    cases h
    exact (operand (.orderBy k by_ ht hr (.comma (hp.orderKeys (.bare he)))) .nil).of_eq (by simp)
  | partition o w by_ hb ht hp =>
    cases h
    have hes := hp.expressions he
    rw [← List.reverse_cons] at hes
    exact (operand (.partition o w by_ hb ht (.comma hes)) .nil).of_eq (by simp)
  | rank o w by_ hb ht hps hp =>
    cases h
    have hos := hp.orderKeys (.bare he)
    rw [← List.reverse_cons] at hos
    exact (operand (.rank o w by_ hb ht hps (.comma hos)) .nil).of_eq (by simp)
  | condition => cases h

theorem direct {s' : State} {direction : Direction} (hs : SlotRead ts plan slot)
    (he : OrderKey (us ++ [t]) ⟨e, direction⟩) (h : Statement.direct plan e direction slot = some s') :
    Reads (ts ++ us ++ [t]) s' := by
  cases hs with
  | rank o w by_ hb ht hps hp =>
    cases h
    have hos := hp.orderKeys he
    rw [← List.reverse_cons] at hos
    exact (directedRank o w by_ hb ht hps hos).of_eq (by simp)
  | orderBy k by_ ht hr hp =>
    cases h
    exact (directedOrder k by_ ht hr (hp.orderKeys he)).of_eq (by simp)
  | _ => cases h

theorem sign_of_comparison? {op : Comparison} (h : comparison? t = some op) : ComparisonSign t op := by
  unfold comparison? at h
  split at h <;> cases h <;> constructor

theorem stepWhole {s' : State} (hs : SlotRead ts plan slot) (he : Expression 0 us e)
    (h : Statement.stepWhole plan slot e t = some s') : Reads (ts ++ us ++ [t]) s' := by
  unfold Statement.stepWhole at h
  split at h
  case h_1 =>
    obtain ⟨mode, hm, rfl⟩ := Option.map_eq_some_iff.mp h
    exact closeParen hs he hm
  case h_2 => exact nextInSlot hs he h
  case h_3 w => exact direct hs (.asc w he) h
  case h_4 w => exact direct hs (.desc w he) h
  case h_5 w =>
    cases h
    cases hs with
    | item hb => exact label w hb (.expr he)
  case h_6 w =>
    cases h
    cases hs with
    | item hb => exact path (.table w (hb.item (.bare (.expr he))))
  case h_7 w =>
    cases h
    cases hs with
    | partition o k b hb ht hp =>
      have hes := hp.expressions he
      rw [← List.reverse_cons] at hes
      exact by_ fun c => by simpa using SlotRead.rank o w c hb ht (.present k b hes) .nothing
  case h_8 =>
    cases hs with
    | @condition ts vs plan filter links ho hl =>
      split at h
      · rename_i op hop
        cases h
        split at hop
        · rename_i hc
          exact (operand (.condition ho (.compare hl (needLinks_le.mpr hc) he (sign_of_comparison? hop))) .nil).of_eq
            (by simp)
        · cases hop
      · obtain ⟨mode, hm, rfl⟩ := Option.map_eq_some_iff.mp h
        exact (stepPredicate ho (hl.conclude he) hm).of_eq (by simp)
  case h_9 => cases h

theorem symbolOf_of_operator? {x : Symbol} {op : Operator} (h : operator? x = some op) : x = symbolOf op := by
  unfold operator? at h
  split at h <;> cases h <;> rfl

theorem stepValue {s' : State} (hs : SlotRead ts plan slot) (hf : FramesHold 3 us frames e)
    (h : Statement.stepValue plan slot frames e t = some s') : Reads (ts ++ us ++ [t]) s' := by
  cases hop : operatorOf? t with
  | some op =>
    rw [stepValue_operator hop] at h
    cases h
    have hlevel := level_le op
    obtain ⟨hr, he, hn⟩ := hf.reduce (show level op ≤ 3 by omega) hlevel
    obtain rfl : t = .symbol (symbolOf op) := by
      cases t with
      | symbol x => rw [symbolOf_of_operator? hop]
      | _ => cases hop
    exact (operand hs (.binary op hr hn he)).of_eq (by simp)
  | none =>
    have h0 := hf.reduce (Nat.zero_le 3) (Nat.zero_le 2)
    rw [stepValue_other hop] at h
    unfold stepOther at h
    split at h
    case h_1 hr =>
      rw [hr] at h0
      exact stepWhole hs h0.nil h
    case h_2 hr =>
      rw [hr] at h0
      cases h
      obtain ⟨hg, he, -⟩ := h0
      cases hg with
      | group hg => exact (value hs (.three hg (.paren he))).of_eq (by simp)
    case h_3 hr =>
      rw [hr] at h0
      cases h
      obtain ⟨hg, he, -⟩ := h0
      cases hg with
      | argument hg ht hb =>
        have hes := hb.expressions he
        rw [← List.reverse_cons] at hes
        exact (value hs (.three hg (.call ht hes))).of_eq (by simp)
    case h_4 hr =>
      rw [hr] at h0
      cases h
      obtain ⟨hg, he, -⟩ := h0
      cases hg with
      | argument hg ht hb =>
        have hes := hb.expressions he
        rw [← List.reverse_cons] at hes
        exact (operand hs (.argument hg ht (.comma hes))).of_eq (by simp)
    case h_5 => cases h

/-- The parenthesis that closes a call without arguments. -/
theorem closeEmptyCall {name : String} {f : Token} {s' : State}
    (h : (match slot, frames with
      | .item, [] => some ⟨plan, .emptyCall name⟩
      | _, _ => some ⟨plan, .value slot frames (.call name [])⟩) = some s')
    (hs : SlotRead ts plan slot) (hf : FramesRead us frames) (hn : FunctionName f name) :
    Reads (ts ++ us ++ [f, .symbol .leftParen] ++ [.symbol .rightParen]) s' := by
  split at h
  · cases h
    cases hf
    cases hs with
    | item hb => exact (emptyCall hb hn).of_eq (by simp)
  · cases h
    exact (value hs (.three hf (.callEmpty hn))).of_eq (by simp)

theorem stepTables {mode : Mode} (ht : Through 1 ts plan) (h : Statement.stepTables t = some mode) :
    Reads (ts ++ [t]) ⟨plan, mode⟩ := by
  unfold Statement.stepTables at h
  split at h
  case h_1 w =>
    cases h
    exact path (by simpa using TargetRead.joined w ht .none)
  case h_2 w =>
    cases h
    exact joinWord ht (.inner w)
  case h_3 w =>
    cases h
    exact outerKind ht (.left w) (.leftOuter w)
  case h_4 w =>
    cases h
    exact outerKind ht (.right w) (.rightOuter w)
  case h_5 w =>
    cases h
    exact outerKind ht (.full w) (.fullOuter w)
  case h_6 => cases h

theorem textPath {target : Target} {name : String} {s' : State} (ht : TargetRead ts plan target)
    (h : Statement.textPath plan name target = some s') : Reads (ts ++ [.text name]) s' := by
  cases ht with
  | table w ha =>
    cases h
    exact tables (Through.table ha w (.text name))
  | joined w ht hk =>
    cases h
    exact joinedTable (.joined w ht hk) (.text name)
  | _ => cases h

theorem follow {s s' : State} (h : Reads ts s) (hf : s.follow t = some s') : Reads (ts ++ [t]) s' := by
  obtain ⟨plan, mode⟩ := s
  unfold State.follow at hf
  split at hf
  all_goals dsimp only at *
  all_goals subst_vars
  all_goals cases h
  all_goals try cases hf
  case h_1.start.refl w => exact selecting w
  case h_2.selecting.refl d w =>
    exact (operand (.item (.mk w (.present d) .nothing)) .nil).of_eq (by simp)
  case h_3.selecting w =>
    obtain ⟨mode, hm, rfl⟩ := Option.map_eq_some_iff.mp hf
    exact (stepOperand (.item (.mk w .absent .nothing)) .nil hm).of_eq (by simp)
  case h_4.operand hs hr =>
    obtain ⟨mode, hm, rfl⟩ := Option.map_eq_some_iff.mp hf
    exact stepOperand hs hr hm
  case h_5.dot.refl hs hr hc => exact (name hs hr (.dotted _ hc) (by simp)).of_eq (by simp)
  case h_6.callee.refl hs hr hn => exact (arguments hs hr hn).of_eq (by simp)
  case h_7.arguments hs hr hn => exact closeEmptyCall hf hs hr hn
  case h_8.arguments.refl hs hr hn => exact (starArgument hs hr hn).of_eq (by simp)
  case h_9.arguments hs hr hn =>
    obtain ⟨mode, hm, rfl⟩ := Option.map_eq_some_iff.mp hf
    exact (stepOperand hs (.argument hr hn .nothing) hm).of_eq (by simp)
  case h_10.starArgument.refl hs hr hn => exact (value hs (.three hr (.callStar hn))).of_eq (by simp)
  case h_11.value hs hr => exact stepValue hs hr hf
  case h_12.predicate ho hl =>
    obtain ⟨mode, hm, rfl⟩ := Option.map_eq_some_iff.mp hf
    exact stepPredicate ho hl hm
  case h_13.over_.refl o hb hn => exact (window o hb hn).of_eq (by simp)
  case h_14.window.refl o hb hn => exact (ranked hb (.mk o hn .absent .absent)).of_eq (by simp)
  case h_15.window.refl k _ _ o hb hn =>
    exact by_ fun w => by simpa using SlotRead.partition o k w hb hn .nothing
  case h_16.window.refl k _ _ o hb hn =>
    exact by_ fun w => by simpa using SlotRead.rank o k w hb hn .absent .nothing
  case h_17.ranked.refl k _ _ hb hw => exact label k hb (.window hw)
  case h_18.ranked.refl hb hw =>
    exact (operand (.item (hb.item (.bare (.window hw))).comma) .nil).of_eq (by simp)
  case h_19.ranked.refl k _ _ hb hw => exact path (.table k (hb.item (.bare (.window hw))))
  case h_20.star.refl hb => exact (operand (.item (hb.item .star).comma) .nil).of_eq (by simp)
  case h_21.star.refl k _ hb => exact path (.table k (hb.item .star))
  case h_22.label.refl k hb hc =>
    exact itemDone (by simpa using hb.item (.labelled k hc (.identifier _)))
  case h_23.label.refl k hb hc =>
    exact itemDone (by simpa using hb.item (.labelled k hc (.text _)))
  case h_24.itemDone.refl ha => exact (operand (.item ha.comma) .nil).of_eq (by simp)
  case h_25.itemDone.refl k ha => exact path (.table k ha)
  case h_26.by_.refl k hs => exact (operand (hs k) .nil).of_eq (by simp)
  case h_27.directedRank.refl o k b hn hp ho hb =>
    exact (operand (.rank o k b hb hn hp (.comma ho)) .nil).of_eq (by simp)
  case h_27.directedOrder.refl k b ht hr ho =>
    exact (operand (.orderBy k b ht hr (.comma ho)) .nil).of_eq (by simp)
  case h_28.directedRank.refl o k b hb hn hp ho =>
    exact (ranked hb (.mk o hn hp (.present k b ho))).of_eq (by simp)
  case h_29.path.refl ht => exact pathName ht (.single _)
  case h_30.path ht => exact textPath ht hf
  case h_31.pathName.refl ht hc => exact path (.rightKey ht hc)
  case h_32.pathDot.refl ht hc => exact (pathName ht (.dotted _ hc)).of_eq (by simp)
  case h_33.tables ht =>
    obtain ⟨mode, hm, rfl⟩ := Option.map_eq_some_iff.mp hf
    exact stepTables ht hm
  case h_34.outerKind.refl o _ _ ht hk ho => exact (joinWord ht (ho o)).of_eq (by simp)
  case h_35.outerKind.refl ht hk ho => exact path (.joined _ ht hk)
  case h_36.joinWord.refl ht hk => exact path (.joined _ ht hk)
  case h_37.joinedTable.refl ht hp => exact path (.leftKey _ ht hp)
  case h_38.limit.refl k hr ht =>
    exact counted (by simpa [rank] using ht.limit hr k _)
  case h_39.offset.refl k hr ht =>
    exact counted (by simpa [rank] using ht.offset hr k _)

/-! ## Runs -/

theorem step {s s' : State} (h : Reads ts s) (hs : s.step t = some s') : Reads (ts ++ [t]) s' := by
  unfold State.step at hs
  split at hs
  · rename_i hx
    cases hs
    exact h.extend hx
  · split at hs
    · rename_i hf
      cases hs
      exact h.settled.follow hf
    · exact h.settled.advance hs

end Reads

theorem reads_steps {ts us : List Token} {s s' : State} (h : Reads ts s) (hs : steps s us = some s') :
    Reads (ts ++ us) s' := by
  induction us generalizing ts s with
  | nil =>
    cases hs
    simpa using h
  | cons t us ih =>
    rw [steps_cons] at hs
    obtain ⟨s₁, h₁, h₂⟩ := Option.bind_eq_some_iff.mp hs
    simpa using ih (h.step h₁) h₂

theorem sentence_of_plan {ts : List Token} {s : State} {plan : Plan} (hs : steps State.start ts = some s)
    (hp : s.plan? = some plan) : Sentence ts plan := by
  have h := reads_steps .start hs
  rw [List.nil_append] at h
  unfold State.plan? at hp
  split at hp
  · rename_i hm
    obtain ⟨plan', mode⟩ := s
    obtain rfl : mode = .finished := hm
    cases hp
    cases h with
    | finished hsel => exact .closed hsel
  · obtain ⟨⟨plan', c⟩, hc, rfl⟩ := Option.map_eq_some_iff.mp hp
    exact .bare (h.settled.close? hc).select

end JsonTables.Statement
