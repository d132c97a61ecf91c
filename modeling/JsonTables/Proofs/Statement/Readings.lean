/-
  JsonTables.Proofs.Statement.Readings — what a state says about the tokens before it.

  Frames, links, slots and targets each stand for a row of tokens that led to them. A frame of a binary
  operator holds a left side of its own level, and lies only on frames that the operator would not have
  let go; so `need` is the level an operand must have to be let go by all frames it is meant for.

  Proved:
  - `FramesHold.reduce`, `LinksHold.joinAnds`, `LinksHold.joinAll`: what operators let go is read right.
  - `Through.select`: where a clause ends a statement is complete.
-/

import JsonTables.Proofs.Statement.Expressions

namespace JsonTables.Statement

open Grammar

/-! ## Lists -/

/-- A list in front of its next member: empty, or with a comma behind it. -/
inductive Preceding {α : Type} (R : List Token → List α → Prop) : List Token → List α → Prop
  | nothing : Preceding R [] []
  | comma {ts : List Token} {as : List α} : R ts as → Preceding R (ts ++ [.symbol .comma]) as

theorem Preceding.expressions {ts us : List Token} {es : List Expr} {e : Expr} (h : Preceding Expressions ts es)
    (he : Expression 0 us e) : Expressions (ts ++ us) (es ++ [e]) := by
  cases h with
  | nothing => exact .single he
  | comma h => exact .more h he

theorem Preceding.orderKeys {ts us : List Token} {os : List OrderItem} {o : OrderItem}
    (h : Preceding OrderKeys ts os) (ho : OrderKey us o) : OrderKeys (ts ++ us) (os ++ [o]) := by
  cases h with
  | nothing => exact .single ho
  | comma h => exact .more h ho

theorem Preceding.items {ts us : List Token} {is : List SelectItem} {i : SelectItem} (h : Preceding Items ts is)
    (hi : Item us i) : Items (ts ++ us) (is ++ [i]) := by
  cases h with
  | nothing => exact .single hi
  | comma h => exact .more h hi

/-! ## Frames -/

theorem expression_negated {n : Nat} {ts : List Token} {e : Expr} (hn : n ≤ 3) (h : Expression 3 ts e) :
    Expression n ([.symbol .minus] ++ ts) (negated e) := by
  by_cases hx : ∃ x, e = .literal (.number x)
  · obtain ⟨x, rfl⟩ := hx
    exact .minusNumber hn h
  · have hne : ∀ x, e ≠ .literal (.number x) := fun x he => hx ⟨x, he⟩
    rw [negated_eq hne]
    exact .minus hn h hne

/-- The level of an operand that the frame on top of the others can take. -/
def need : List Frame → Nat
  | .negate :: _ => 3
  | .binary op _ :: _ => level op + 1
  | _ => 0

theorem need_le (frames : List Frame) : need frames ≤ 3 := by
  unfold need
  split
  · exact Nat.le_refl 3
  · exact Nat.succ_le_succ (level_le _)
  · exact Nat.zero_le 3

/-- The tokens that led to the frames. -/
inductive FramesRead : List Token → List Frame → Prop
  | nil : FramesRead [] []
  | negate {ts : List Token} {fs : List Frame} : FramesRead ts fs →
      FramesRead (ts ++ [.symbol .minus]) (.negate :: fs)
  | binary {ts us : List Token} {fs : List Frame} {left : Expr} (op : Operator) : FramesRead ts fs →
      need fs ≤ level op → Expression (level op) us left →
      FramesRead (ts ++ us ++ [.symbol (symbolOf op)]) (.binary op left :: fs)
  | group {ts : List Token} {fs : List Frame} : FramesRead ts fs →
      FramesRead (ts ++ [.symbol .leftParen]) (.group :: fs)
  | argument {ts us : List Token} {fs : List Frame} {t : Token} {name : String} {before : List Expr} :
      FramesRead ts fs → FunctionName t name → Preceding Expressions us before.reverse →
      FramesRead (ts ++ [t, .symbol .leftParen] ++ us) (.argument name before :: fs)

/-- An operand of level `n` that the frame on top of the others can take. -/
inductive FramesHold (n : Nat) : List Token → List Frame → Expr → Prop
  | mk {ts us : List Token} {fs : List Frame} {e : Expr} : FramesRead ts fs → Expression n us e → need fs ≤ n →
      FramesHold n (ts ++ us) fs e

theorem FramesHold.three {ts us : List Token} {fs : List Frame} {e : Expr} (hf : FramesRead ts fs)
    (he : Expression 3 us e) : FramesHold 3 (ts ++ us) fs e := .mk hf he (need_le fs)

theorem FramesHold.reduce {k n : Nat} {ts : List Token} {fs : List Frame} {e : Expr} (h : FramesHold k ts fs e)
    (hnk : n ≤ k) (hn : n ≤ 2) : FramesHold n ts (reduce n fs e).1 (reduce n fs e).2 := by
  obtain @⟨ts, us, fs, e, hf, he, hneed⟩ := h
  induction hf generalizing k us e with
  | nil => exact .mk .nil (he.mono hnk) (Nat.zero_le n)
  | group hf => exact .mk (.group hf) (he.mono hnk) (Nat.zero_le n)
  | argument hf ht hb => exact .mk (.argument hf ht hb) (he.mono hnk) (Nat.zero_le n)
  | negate hf ih =>
    have hn3 : n ≤ 3 := by omega
    have hneg := ih hn3 (need_le _) (expression_negated (Nat.le_refl 3) (he.mono hneed))
    simpa [Statement.reduce] using hneg
  | binary op hf hop hl ih =>
    by_cases hlevel : n ≤ level op
    · have hbin := ih hlevel hop (Expression.binary op (Nat.le_refl _) hl (he.mono hneed))
      simpa [Statement.reduce, hlevel] using hbin
    · have hlt : level op + 1 ≤ n := by omega
      simpa [Statement.reduce, hlevel] using FramesHold.mk (.binary op hf hop hl) (he.mono hnk) hlt

/-! ## Links -/

/-- The level of a condition that the link on top of the others can take; a comparison takes none. -/
def needLinks : List Link → Nat
  | .compare .. :: _ => 4
  | .and _ :: _ => 3
  | .or _ :: _ => 2
  | _ => 0

theorem needLinks_le {links : List Link} : needLinks links ≤ 3 ↔ mayCompare links = true := by
  rcases links with _ | ⟨_ | _ | _ | _, links⟩ <;> simp [needLinks, mayCompare]

/-- The tokens that led to the links. -/
inductive LinksRead : List Token → List Link → Prop
  | nil : LinksRead [] []
  | compare {ts us : List Token} {ls : List Link} {t : Token} {op : Comparison} {left : Expr} : LinksRead ts ls →
      needLinks ls ≤ 3 → Expression 0 us left → ComparisonSign t op →
      LinksRead (ts ++ us ++ [t]) (.compare op left :: ls)
  | and {ts us : List Token} {ls : List Link} {left : Predicate} (w : String) : LinksRead ts ls →
      needLinks ls ≤ 2 → Condition 2 us left → LinksRead (ts ++ us ++ [.keyword .and w]) (.and left :: ls)
  | or {ts us : List Token} {ls : List Link} {left : Predicate} (w : String) : LinksRead ts ls →
      needLinks ls ≤ 1 → Condition 1 us left → LinksRead (ts ++ us ++ [.keyword .or w]) (.or left :: ls)
  | group {ts : List Token} {ls : List Link} : LinksRead ts ls → needLinks ls ≤ 3 →
      LinksRead (ts ++ [.symbol .leftParen]) (.group :: ls)

/-- A condition of level `n` that the link on top of the others can take. -/
inductive LinksHold (n : Nat) : List Token → List Link → Predicate → Prop
  | mk {ts us : List Token} {ls : List Link} {p : Predicate} : LinksRead ts ls → Condition n us p →
      needLinks ls ≤ n → LinksHold n (ts ++ us) ls p

theorem LinksRead.conclude {ts us : List Token} {ls : List Link} {e : Expr} (h : LinksRead ts ls)
    (he : Expression 0 us e) : LinksHold 3 (ts ++ us) (conclude ls e).1 (conclude ls e).2 := by
  cases h with
  | nil => exact .mk .nil (.truth he) (Nat.zero_le 3)
  | compare hl hn ha ht => simpa [Statement.conclude] using LinksHold.mk hl (.compare (Nat.le_refl 3) ha ht he) hn
  | and w hl hn hp => exact .mk (.and w hl hn hp) (.truth he) (Nat.le_refl 3)
  | or w hl hn hp => exact .mk (.or w hl hn hp) (.truth he) (show 2 ≤ 3 by decide)
  | group hl hn => exact .mk (.group hl hn) (.truth he) (Nat.zero_le 3)

theorem LinksHold.joinAnds {k : Nat} {ts : List Token} {ls : List Link} {p : Predicate} (h : LinksHold k ts ls p)
    (hk : 2 ≤ k) (hk3 : k ≤ 3) : LinksHold 2 ts (joinAnds ls p).1 (joinAnds ls p).2 := by
  obtain @⟨ts, us, ls, p, hl, hp, hneed⟩ := h
  induction hl generalizing k us p with
  | nil => exact .mk .nil (hp.mono hk) (Nat.zero_le _)
  | compare => exact absurd (Nat.le_trans hneed hk3) (show ¬4 ≤ 3 by decide)
  | and w hl hn hq ih =>
    have hand := ih (Nat.le_refl 2) (by decide) hn (Condition.and w (Nat.le_refl 2) hq (hp.mono hneed))
    simpa [Statement.joinAnds] using hand
  | or w hl hn hq => exact .mk (.or w hl hn hq) (hp.mono hk) (Nat.le_refl 2)
  | group hl hn => exact .mk (.group hl hn) (hp.mono hk) (Nat.zero_le 2)

theorem LinksHold.joinAll {k : Nat} {ts : List Token} {ls : List Link} {p : Predicate} (h : LinksHold k ts ls p)
    (hk : 1 ≤ k) (hk3 : k ≤ 3) : LinksHold 1 ts (joinAll ls p).1 (joinAll ls p).2 := by
  obtain @⟨ts, us, ls, p, hl, hp, hneed⟩ := h
  induction hl generalizing k us p with
  | nil => exact .mk .nil (hp.mono hk) (Nat.zero_le _)
  | compare => exact absurd (Nat.le_trans hneed hk3) (show ¬4 ≤ 3 by decide)
  | and w hl hn hq ih =>
    have hand := ih (show 1 ≤ 2 by decide) (by decide) hn (Condition.and w (Nat.le_refl 2) hq (hp.mono hneed))
    simpa [Statement.joinAll] using hand
  | or w hl hn hq ih =>
    have hor := ih (Nat.le_refl 1) (by decide) hn (Condition.or w (Nat.le_refl 1) hq (hp.mono hneed))
    simpa [Statement.joinAll] using hor
  | group hl hn => exact .mk (.group hl hn) (hp.mono hk) (Nat.zero_le 1)

/-! ## Statements so far -/

/-- A statement in front of a select item. -/
inductive BeforeItem : List Token → Plan → Prop
  | mk {ds is : List Token} {distinct : Bool} {items : List SelectItem} (w : String) : DistinctWord ds distinct →
      Preceding Items is items →
      BeforeItem ([.keyword .select w] ++ ds ++ is) { Plan.blank with distinct := distinct, select := items }

/-- A statement behind a select item. -/
inductive AfterItem : List Token → Plan → Prop
  | mk {ds is : List Token} {distinct : Bool} {items : List SelectItem} (w : String) : DistinctWord ds distinct →
      Items is items →
      AfterItem ([.keyword .select w] ++ ds ++ is) { Plan.blank with distinct := distinct, select := items }

theorem BeforeItem.item {ts us : List Token} {plan : Plan} {c : Selected} {label : Option String}
    (h : BeforeItem ts plan) (hi : Item us ⟨c, label⟩) : AfterItem (ts ++ us) (addItem plan c label) := by
  obtain ⟨w, hd, hp⟩ := h
  simpa [addItem] using AfterItem.mk w hd (hp.items hi)

theorem AfterItem.comma {ts : List Token} {plan : Plan} (h : AfterItem ts plan) :
    BeforeItem (ts ++ [.symbol .comma]) plan := by
  obtain ⟨w, hd, hi⟩ := h
  simpa using BeforeItem.mk w hd (.comma hi)

/-- A statement whose clauses have rank `r` at most. -/
inductive Through (r : Nat) : List Token → Plan → Prop
  | mk {ds is ps js ws gs hs os ls fs : List Token} {distinct : Bool} {items : List SelectItem}
      {table : String} {joins : List Join} {where_ having : Option Predicate} {groupBy : List Expr}
      {orderBy : List OrderItem} {limit : Option Nat} {offset : Nat} (w from_ : String) :
      DistinctWord ds distinct → Items is items → TablePath ps table → Joins js joins →
      ConditionClause .where_ ws where_ → ListClause .group gs groupBy → ConditionClause .having hs having →
      OrderClause os orderBy → LimitClause ls limit → OffsetClause fs offset →
      (r < 2 → ws = []) → (r < 3 → gs = []) → (r < 4 → hs = []) → (r < 5 → os = []) → (r < 6 → ls = []) →
      (r < 7 → fs = []) →
      Through r ([.keyword .select w] ++ ds ++ is ++ [.keyword .from_ from_] ++ ps ++ js ++ ws ++ gs ++ hs ++ os ++
        ls ++ fs)
        ⟨distinct, items, table, joins, where_, groupBy, having, orderBy, limit, offset, Hints.empty⟩

/-- What is said of the clauses from `k` on says nothing behind them. -/
theorem passed {k r : Nat} {ts : List Token} (h : k ≤ r) : r < k → ts = [] := fun hr => absurd hr (Nat.not_lt.mpr h)

namespace Through

variable {r : Nat} {ts us : List Token} {plan : Plan}

theorem select (h : Through r ts plan) : Select ts plan := by
  obtain ⟨w, from_, hd, hi, hp, hj, hw, hg, hh, ho, hl, hf, -⟩ := h
  exact .mk w from_ hd hi hp hj hw hg hh ho hl hf

theorem table {name : String} (h : AfterItem ts plan) (from_ : String) (hp : TablePath us name) :
    Through 1 (ts ++ [.keyword .from_ from_] ++ us) { plan with table := name } := by
  obtain ⟨w, hd, hi⟩ := h
  have ht : Through 1 _ _ := .mk w from_ hd hi hp .none .absent .absent .absent .absent .absent .absent
    (fun _ => rfl) (fun _ => rfl) (fun _ => rfl) (fun _ => rfl) (fun _ => rfl) (fun _ => rfl)
  simpa [Plan.blank] using ht

theorem join {j : Join} (h : Through 1 ts plan) (hj : JoinClause us j) : Through 1 (ts ++ us) (addJoin plan j) := by
  obtain ⟨w, from_, hd, hi, hp, hjs, hw, hg, hh, ho, hl, hf, h2, h3, h4, h5, h6, h7⟩ := h
  obtain ⟨rfl, rfl, rfl⟩ := And.intro (h2 (by decide)) (And.intro (h3 (by decide)) (h4 (by decide)))
  obtain ⟨rfl, rfl, rfl⟩ := And.intro (h5 (by decide)) (And.intro (h6 (by decide)) (h7 (by decide)))
  have ht := Through.mk w from_ hd hi hp (.more hjs hj) hw hg hh ho hl hf h2 h3 h4 h5 h6 h7
  simpa [addJoin] using ht

theorem where_ {p : Predicate} (h : Through r ts plan) (hr : r < 2) (k : String) (hc : Condition 0 us p) :
    Through 2 (ts ++ [.keyword .where_ k] ++ us) (setFilter plan p .where_) := by
  obtain ⟨w, from_, hd, hi, hp, hj, hw, hg, hh, ho, hl, hf, h2, h3, h4, h5, h6, h7⟩ := h
  obtain rfl := h2 hr
  obtain rfl := h3 (by omega)
  obtain rfl := h4 (by omega)
  obtain rfl := h5 (by omega)
  obtain rfl := h6 (by omega)
  obtain rfl := h7 (by omega)
  have ht : Through 2 _ _ := .mk w from_ hd hi hp hj (.present k hc) hg hh ho hl hf
    (passed (by decide)) (fun _ => rfl) (fun _ => rfl) (fun _ => rfl) (fun _ => rfl) (fun _ => rfl)
  simpa [setFilter] using ht

theorem groupBy {es : List Expr} (h : Through r ts plan) (hr : r < 3) (k by_ : String) (hc : Expressions us es) :
    Through 3 (ts ++ [.keyword .group k, .keyword .by_ by_] ++ us) { plan with groupBy := es } := by
  obtain ⟨w, from_, hd, hi, hp, hj, hw, hg, hh, ho, hl, hf, h2, h3, h4, h5, h6, h7⟩ := h
  obtain rfl := h3 hr
  obtain rfl := h4 (by omega)
  obtain rfl := h5 (by omega)
  obtain rfl := h6 (by omega)
  obtain rfl := h7 (by omega)
  have ht : Through 3 _ _ := .mk w from_ hd hi hp hj hw (.present k by_ hc) hh ho hl hf
    (passed (by decide)) (passed (by decide)) (fun _ => rfl) (fun _ => rfl) (fun _ => rfl) (fun _ => rfl)
  simpa using ht

theorem having {p : Predicate} (h : Through r ts plan) (hr : r < 4) (k : String) (hc : Condition 0 us p) :
    Through 4 (ts ++ [.keyword .having k] ++ us) (setFilter plan p .having) := by
  obtain ⟨w, from_, hd, hi, hp, hj, hw, hg, hh, ho, hl, hf, h2, h3, h4, h5, h6, h7⟩ := h
  obtain rfl := h4 hr
  obtain rfl := h5 (by omega)
  obtain rfl := h6 (by omega)
  obtain rfl := h7 (by omega)
  have ht : Through 4 _ _ := .mk w from_ hd hi hp hj hw hg (.present k hc) ho hl hf
    (passed (by decide)) (passed (by decide)) (passed (by decide)) (fun _ => rfl) (fun _ => rfl) (fun _ => rfl)
  simpa [setFilter] using ht

theorem orderBy {os : List OrderItem} (h : Through r ts plan) (hr : r < 5) (k by_ : String) (hc : OrderKeys us os) :
    Through 5 (ts ++ [.keyword .order k, .keyword .by_ by_] ++ us) { plan with orderBy := os } := by
  obtain ⟨w, from_, hd, hi, hp, hj, hw, hg, hh, ho, hl, hf, h2, h3, h4, h5, h6, h7⟩ := h
  obtain rfl := h5 hr
  obtain rfl := h6 (by omega)
  obtain rfl := h7 (by omega)
  have ht : Through 5 _ _ := .mk w from_ hd hi hp hj hw hg hh (.present k by_ hc) hl hf
    (passed (by decide)) (passed (by decide)) (passed (by decide)) (passed (by decide)) (fun _ => rfl) (fun _ => rfl)
  simpa using ht

theorem limit (h : Through r ts plan) (hr : r < 6) (k : String) (n : Nat) :
    Through 6 (ts ++ [.keyword .limit k, .integer n]) { plan with limit := some n } := by
  obtain ⟨w, from_, hd, hi, hp, hj, hw, hg, hh, ho, hl, hf, h2, h3, h4, h5, h6, h7⟩ := h
  obtain rfl := h6 hr
  obtain rfl := h7 (by omega)
  have ht : Through 6 _ _ := .mk w from_ hd hi hp hj hw hg hh ho (.present k n) hf
    (passed (by decide)) (passed (by decide)) (passed (by decide)) (passed (by decide)) (passed (by decide))
    (fun _ => rfl)
  simpa using ht

theorem offset (h : Through r ts plan) (hr : r < 7) (k : String) (n : Nat) :
    Through 7 (ts ++ [.keyword .offset k, .integer n]) { plan with offset := n } := by
  obtain ⟨w, from_, hd, hi, hp, hj, hw, hg, hh, ho, hl, hf, h2, h3, h4, h5, h6, h7⟩ := h
  obtain rfl := h7 hr
  have ht : Through 7 _ _ := .mk w from_ hd hi hp hj hw hg hh ho hl (.present k n)
    (passed (by decide)) (passed (by decide)) (passed (by decide)) (passed (by decide)) (passed (by decide))
    (passed (by decide))
  simpa using ht

/-- Nothing is grouped before `GROUP BY`. -/
theorem groupBy_eq_nil (h : Through r ts plan) (hr : r < 3) : plan.groupBy = [] := by
  obtain ⟨w, from_, hd, hi, hp, hj, hw, hg, hh, ho, hl, hf, h2, h3, -⟩ := h
  obtain rfl := h3 hr
  cases hg
  rfl

/-- Nothing is ordered before `ORDER BY`. -/
theorem orderBy_eq_nil (h : Through r ts plan) (hr : r < 5) : plan.orderBy = [] := by
  obtain ⟨w, from_, hd, hi, hp, hj, hw, hg, hh, ho, hl, hf, h2, h3, h4, h5, -⟩ := h
  obtain rfl := h5 hr
  cases ho
  rfl

end Through

end JsonTables.Statement
