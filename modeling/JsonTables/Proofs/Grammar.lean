/-
  JsonTables.Proofs.Grammar — the grammar of statements, as relations between tokens and what they say.

  Every relation holds a row of tokens and the one reading of it. Operators come in levels, from the
  loosest to the tightest: sums 1, products 2, the minus sign 3; and for conditions `OR` 1, `AND` 2,
  comparisons 3. `Expression n` and `Condition n` are those in which every operator outside parentheses
  has level `n` at least, so an operator of level `n` takes on its left what is of level `n` and on its
  right what is tighter. A comparison stands between expressions, so there is no chain of them.

  A rank over a window is a select item of its own and part of no expression.

  Proved:
  - `Column.cons`, `Expressions.cons`, `OrderKeys.cons`: lists grow at their front as well.
  - `Composable.items`, `Composable.sentence`: what holds of rows put together from parts holds of a select
    list and of a statement.
-/

import JsonTables.Plan
import JsonTables.Token.Basic

namespace JsonTables.Grammar

/-! ## Names -/

/-- A column: names with dots between them. -/
inductive Column : List Token → String → Prop
  | single (name : String) : Column [.identifier name] name
  | dotted {ts : List Token} {name : String} (part : String) : Column ts name →
      Column (ts ++ [.symbol .dot, .identifier part]) (name ++ "." ++ part)

theorem Column.cons (part : String) {ts : List Token} {name : String} (h : Column ts name) :
    Column ([.identifier part, .symbol .dot] ++ ts) (part ++ "." ++ name) := by
  induction h with
  | single name => exact .dotted name (.single part)
  | dotted last _ ih => simpa [String.append_assoc] using ih.dotted last

/-- What may stand in front of the parenthesis of a call, with the name as it is written. -/
inductive FunctionName : Token → String → Prop
  | identifier (name : String) : FunctionName (.identifier name) name
  | contains (w : String) : FunctionName (.keyword .contains w) w
  | left (w : String) : FunctionName (.keyword .left w) w
  | right (w : String) : FunctionName (.keyword .right w) w

/-! ## Expressions -/

def symbolOf : Operator → Symbol
  | .add => .plus
  | .sub => .minus
  | .mul => .star
  | .div => .slash
  | .rem => .percent

def levelOf : Operator → Nat
  | .add | .sub => 1
  | .mul | .div | .rem => 2

mutual

inductive Expression : Nat → List Token → Expr → Prop
  | integer {n : Nat} (k : Nat) : Expression n [.integer k] (.literal (.number (.int k)))
  | float {n : Nat} (x : Binary64) : Expression n [.float x] (.literal (.number (.float x)))
  | text {n : Nat} (s : String) : Expression n [.text s] (.literal (.text s))
  | true_ {n : Nat} (w : String) : Expression n [.keyword .true_ w] (.literal (.bool true))
  | false_ {n : Nat} (w : String) : Expression n [.keyword .false_ w] (.literal (.bool false))
  | null {n : Nat} (w : String) : Expression n [.keyword .null w] (.literal .null)
  | column {n : Nat} {ts : List Token} {name : String} : Column ts name → Expression n ts (.column name)
  | callEmpty {n : Nat} {t : Token} {name : String} : FunctionName t name →
      Expression n [t, .symbol .leftParen, .symbol .rightParen] (.call name [])
  | callStar {n : Nat} {t : Token} {name : String} : FunctionName t name →
      Expression n [t, .symbol .leftParen, .symbol .star, .symbol .rightParen] (.callStar name)
  | call {n : Nat} {t : Token} {name : String} {ts : List Token} {args : List Expr} : FunctionName t name →
      Expressions ts args →
      Expression n ([t, .symbol .leftParen] ++ ts ++ [.symbol .rightParen]) (.call name args)
  | paren {n : Nat} {ts : List Token} {e : Expr} : Expression 0 ts e →
      Expression n ([.symbol .leftParen] ++ ts ++ [.symbol .rightParen]) e
  /-- A minus sign in front of a number belongs to the number. -/
  | minusNumber {n : Nat} {ts : List Token} {x : Number} : n ≤ 3 →
      Expression 3 ts (.literal (.number x)) →
      Expression n ([.symbol .minus] ++ ts) (.literal (.number x.neg))
  | minus {n : Nat} {ts : List Token} {e : Expr} : n ≤ 3 → Expression 3 ts e →
      (∀ x, e ≠ .literal (.number x)) → Expression n ([.symbol .minus] ++ ts) (.negate e)
  | binary {n : Nat} {ts us : List Token} {a b : Expr} (op : Operator) : n ≤ levelOf op →
      Expression (levelOf op) ts a → Expression (levelOf op + 1) us b →
      Expression n (ts ++ [.symbol (symbolOf op)] ++ us) (.binary op a b)

/-- One expression or several with commas between them. -/
inductive Expressions : List Token → List Expr → Prop
  | single {ts : List Token} {e : Expr} : Expression 0 ts e → Expressions ts [e]
  | more {ts us : List Token} {es : List Expr} {e : Expr} : Expressions ts es → Expression 0 us e →
      Expressions (ts ++ [.symbol .comma] ++ us) (es ++ [e])

end

theorem Expression.mono {m n : Nat} {ts : List Token} {e : Expr} (h : Expression n ts e) (hmn : m ≤ n) :
    Expression m ts e := by
  cases h with
  | integer k => exact .integer k
  | float x => exact .float x
  | text s => exact .text s
  | true_ w => exact .true_ w
  | false_ w => exact .false_ w
  | null w => exact .null w
  | column h => exact .column h
  | callEmpty h => exact .callEmpty h
  | callStar h => exact .callStar h
  | call hf h => exact .call hf h
  | paren h => exact .paren h
  | minusNumber hn h => exact .minusNumber (Nat.le_trans hmn hn) h
  | minus hn h hne => exact .minus (Nat.le_trans hmn hn) h hne
  | binary op hn ha hb => exact .binary op (Nat.le_trans hmn hn) ha hb

theorem Expressions.cons {ts : List Token} {e : Expr} (he : Expression 0 ts e) {us : List Token} {es : List Expr} :
    Expressions us es → Expressions (ts ++ [.symbol .comma] ++ us) (e :: es)
  | .single h => .more (.single he) h
  | .more hs h => by simpa using (Expressions.cons he hs).more h

/-! ## Conditions -/

inductive ComparisonSign : Token → Comparison → Prop
  | equal : ComparisonSign (.symbol .equal) .equal
  | notEqual : ComparisonSign (.symbol .notEqual) .notEqual
  | unequal : ComparisonSign (.symbol .unequal) .notEqual
  | less : ComparisonSign (.symbol .less) .less
  | lessEqual : ComparisonSign (.symbol .lessEqual) .lessEqual
  | greater : ComparisonSign (.symbol .greater) .greater
  | greaterEqual : ComparisonSign (.symbol .greaterEqual) .greaterEqual
  | contains (w : String) : ComparisonSign (.keyword .contains w) .contains

inductive Condition : Nat → List Token → Predicate → Prop
  | truth {n : Nat} {ts : List Token} {e : Expr} : Expression 0 ts e → Condition n ts (.truth e)
  | compare {n : Nat} {ts us : List Token} {t : Token} {op : Comparison} {a b : Expr} :
      n ≤ 3 → Expression 0 ts a → ComparisonSign t op → Expression 0 us b →
      Condition n (ts ++ [t] ++ us) (.compare op a b)
  | and {n : Nat} {ts us : List Token} {p q : Predicate} (w : String) : n ≤ 2 → Condition 2 ts p →
      Condition 3 us q → Condition n (ts ++ [.keyword .and w] ++ us) (.and p q)
  | or {n : Nat} {ts us : List Token} {p q : Predicate} (w : String) : n ≤ 1 → Condition 1 ts p →
      Condition 2 us q → Condition n (ts ++ [.keyword .or w] ++ us) (.or p q)
  | paren {n : Nat} {ts : List Token} {p : Predicate} : Condition 0 ts p →
      Condition n ([.symbol .leftParen] ++ ts ++ [.symbol .rightParen]) p

theorem Condition.mono {m n : Nat} {ts : List Token} {p : Predicate} (h : Condition n ts p) (hmn : m ≤ n) :
    Condition m ts p := by
  cases h with
  | truth h => exact .truth h
  | compare hn ha ht hb => exact .compare (Nat.le_trans hmn hn) ha ht hb
  | and w hn hp hq => exact .and w (Nat.le_trans hmn hn) hp hq
  | or w hn hp hq => exact .or w (Nat.le_trans hmn hn) hp hq
  | paren h => exact .paren h

/-- A condition behind the word `k`, or none. -/
inductive ConditionClause (k : Keyword) : List Token → Option Predicate → Prop
  | absent : ConditionClause k [] none
  | present {ts : List Token} {p : Predicate} (w : String) : Condition 0 ts p →
      ConditionClause k (.keyword k w :: ts) (some p)

/-! ## Orders and windows -/

/-- A key of an order; without a direction it is ascending. -/
inductive OrderKey : List Token → OrderItem → Prop
  | bare {ts : List Token} {e : Expr} : Expression 0 ts e → OrderKey ts ⟨e, .ascending⟩
  | asc {ts : List Token} {e : Expr} (w : String) : Expression 0 ts e →
      OrderKey (ts ++ [.keyword .asc w]) ⟨e, .ascending⟩
  | desc {ts : List Token} {e : Expr} (w : String) : Expression 0 ts e →
      OrderKey (ts ++ [.keyword .desc w]) ⟨e, .descending⟩

inductive OrderKeys : List Token → List OrderItem → Prop
  | single {ts : List Token} {o : OrderItem} : OrderKey ts o → OrderKeys ts [o]
  | more {ts us : List Token} {os : List OrderItem} {o : OrderItem} : OrderKeys ts os → OrderKey us o →
      OrderKeys (ts ++ [.symbol .comma] ++ us) (os ++ [o])

theorem OrderKeys.cons {ts us : List Token} {o : OrderItem} {os : List OrderItem} (ho : OrderKey ts o)
    (h : OrderKeys us os) : OrderKeys (ts ++ [.symbol .comma] ++ us) (o :: os) := by
  induction h with
  | single h => exact .more (.single ho) h
  | more _ h ih => simpa using ih.more h

/-- `ORDER BY` with its keys, or nothing. -/
inductive OrderClause : List Token → List OrderItem → Prop
  | absent : OrderClause [] []
  | present {ts : List Token} {os : List OrderItem} (w by_ : String) : OrderKeys ts os →
      OrderClause ([.keyword .order w, .keyword .by_ by_] ++ ts) os

/-- `PARTITION BY` or `GROUP BY` with its expressions, or nothing. -/
inductive ListClause (k : Keyword) : List Token → List Expr → Prop
  | absent : ListClause k [] []
  | present {ts : List Token} {es : List Expr} (w by_ : String) : Expressions ts es →
      ListClause k ([.keyword k w, .keyword .by_ by_] ++ ts) es

inductive WindowCall : List Token → Window → Prop
  | mk {t : Token} {name : String} {ps os : List Token} {partition : List Expr} {order : List OrderItem}
      (w : String) : FunctionName t name → ListClause .partition ps partition → OrderClause os order →
      WindowCall ([t, .symbol .leftParen, .symbol .rightParen, .keyword .over_ w, .symbol .leftParen] ++ ps ++
        os ++ [.symbol .rightParen]) ⟨name, partition, order⟩

/-! ## The select list -/

inductive Label : Token → String → Prop
  | identifier (name : String) : Label (.identifier name) name
  | text (s : String) : Label (.text s) s

/-- What an item shows, without the name behind `AS`. -/
inductive ItemContent : List Token → Selected → Prop
  | expr {ts : List Token} {e : Expr} : Expression 0 ts e → ItemContent ts (.expr e)
  | window {ts : List Token} {w : Window} : WindowCall ts w → ItemContent ts (.window w)

inductive Item : List Token → SelectItem → Prop
  | star : Item [.symbol .star] ⟨.star, none⟩
  | bare {ts : List Token} {c : Selected} : ItemContent ts c → Item ts ⟨c, none⟩
  | labelled {ts : List Token} {c : Selected} {t : Token} {name : String} (w : String) : ItemContent ts c →
      Label t name → Item (ts ++ [.keyword .as_ w, t]) ⟨c, some name⟩

inductive Items : List Token → List SelectItem → Prop
  | single {ts : List Token} {i : SelectItem} : Item ts i → Items ts [i]
  | more {ts us : List Token} {is : List SelectItem} {i : SelectItem} : Items ts is → Item us i →
      Items (ts ++ [.symbol .comma] ++ us) (is ++ [i])

/-! ## Tables -/

inductive TablePath : List Token → String → Prop
  | column {ts : List Token} {name : String} : Column ts name → TablePath ts name
  | text (s : String) : TablePath [.text s] s

/-- The words in front of `JOIN`. -/
inductive JoinWords : List Token → JoinKind → Prop
  | none : JoinWords [] .inner
  | inner (w : String) : JoinWords [.keyword .inner w] .inner
  | left (w : String) : JoinWords [.keyword .left w] .left
  | leftOuter (w o : String) : JoinWords [.keyword .left w, .keyword .outer o] .left
  | right (w : String) : JoinWords [.keyword .right w] .right
  | rightOuter (w o : String) : JoinWords [.keyword .right w, .keyword .outer o] .right
  | full (w : String) : JoinWords [.keyword .full w] .full
  | fullOuter (w o : String) : JoinWords [.keyword .full w, .keyword .outer o] .full

inductive JoinClause : List Token → Join → Prop
  | mk {ks ps ls rs : List Token} {kind : JoinKind} {table left right : String} (w on_ : String) :
      JoinWords ks kind → TablePath ps table → Column ls left → Column rs right →
      JoinClause (ks ++ [.keyword .join w] ++ ps ++ [.keyword .on_ on_] ++ ls ++ [.symbol .equal] ++ rs)
        ⟨kind, table, left, right⟩

inductive Joins : List Token → List Join → Prop
  | none : Joins [] []
  | more {ts us : List Token} {js : List Join} {j : Join} : Joins ts js → JoinClause us j →
      Joins (ts ++ us) (js ++ [j])

/-! ## Statements -/

inductive DistinctWord : List Token → Bool → Prop
  | absent : DistinctWord [] false
  | present (w : String) : DistinctWord [.keyword .distinct w] true

inductive LimitClause : List Token → Option Nat → Prop
  | absent : LimitClause [] none
  | present (w : String) (n : Nat) : LimitClause [.keyword .limit w, .integer n] (some n)

/-- Without `OFFSET` the offset is zero. -/
inductive OffsetClause : List Token → Nat → Prop
  | absent : OffsetClause [] 0
  | present (w : String) (n : Nat) : OffsetClause [.keyword .offset w, .integer n] n

inductive Select : List Token → Plan → Prop
  | mk {ds is ps js ws gs hs os ls fs : List Token} {distinct : Bool} {items : List SelectItem}
      {table : String} {joins : List Join} {where_ having : Option Predicate} {groupBy : List Expr}
      {orderBy : List OrderItem} {limit : Option Nat} {offset : Nat} (w from_ : String) :
      DistinctWord ds distinct → Items is items → TablePath ps table → Joins js joins →
      ConditionClause .where_ ws where_ → ListClause .group gs groupBy → ConditionClause .having hs having →
      OrderClause os orderBy → LimitClause ls limit → OffsetClause fs offset →
      Select ([.keyword .select w] ++ ds ++ is ++ [.keyword .from_ from_] ++ ps ++ js ++ ws ++ gs ++ hs ++
        os ++ ls ++ fs)
        ⟨distinct, items, table, joins, where_, groupBy, having, orderBy, limit, offset, Hints.empty⟩

/-- A whole statement, with or without a semicolon at its end. -/
inductive Sentence : List Token → Plan → Prop
  | bare {ts : List Token} {plan : Plan} : Select ts plan → Sentence ts plan
  | closed {ts : List Token} {plan : Plan} : Select ts plan → Sentence (ts ++ [.symbol .semicolon]) plan

/-! ## Properties of rows -/

/-- The tokens of which select items are made, apart from parentheses; `WITH` is none of them. -/
def isPart : Token → Bool
  | .symbol .leftParen | .symbol .rightParen | .keyword .with_ _ => false
  | _ => true

/-- A property of rows of tokens that a row has if it is put together from rows with the property. -/
structure Composable (P : List Token → Prop) : Prop where
  nil : P []
  single {t : Token} : isPart t = true → P [t]
  append {ts us : List Token} : P ts → P us → P (ts ++ us)
  paren {ts : List Token} : P ts → P ([.symbol .leftParen] ++ ts ++ [.symbol .rightParen])

namespace Composable

variable {P : List Token → Prop}

theorem pair (hP : Composable P) {t u : Token} (ht : isPart t = true) (hu : isPart u = true) : P [t, u] :=
  hP.append (hP.single ht) (hP.single hu)

theorem column (hP : Composable P) {ts : List Token} {name : String} (h : Column ts name) : P ts := by
  induction h with
  | single => exact hP.single rfl
  | dotted part _ ih => exact hP.append ih (hP.pair rfl rfl)

theorem functionName (hP : Composable P) {t : Token} {name : String} (h : FunctionName t name) : P [t] := by
  cases h <;> exact hP.single rfl

mutual

theorem expression (hP : Composable P) {n : Nat} {ts : List Token} {e : Expr} : Expression n ts e → P ts
  | .integer _ | .float _ | .text _ | .true_ _ | .false_ _ | .null _ => hP.single rfl
  | .column h => hP.column h
  | .callEmpty h => hP.append (hP.functionName h) (hP.paren hP.nil)
  | .callStar h => hP.append (hP.functionName h) (hP.paren (hP.single rfl))
  | .call hf h => by
    simpa using hP.append (hP.functionName hf) (hP.paren (expressions hP h))
  | .paren h => hP.paren (expression hP h)
  | .minusNumber _ h | .minus _ h _ => hP.append (hP.single rfl) (expression hP h)
  | .binary op _ ha hb =>
    hP.append (hP.append (expression hP ha) (hP.single (by cases op <;> rfl))) (expression hP hb)

theorem expressions (hP : Composable P) {ts : List Token} {es : List Expr} : Expressions ts es → P ts
  | .single h => expression hP h
  | .more hl h => hP.append (hP.append (expressions hP hl) (hP.single rfl)) (expression hP h)

end

theorem orderKeys (hP : Composable P) {ts : List Token} {os : List OrderItem} (h : OrderKeys ts os) : P ts := by
  have hkey {us : List Token} {o : OrderItem} (h : OrderKey us o) : P us := by
    cases h with
    | bare h => exact hP.expression h
    | asc w h => exact hP.append (hP.expression h) (hP.single rfl)
    | desc w h => exact hP.append (hP.expression h) (hP.single rfl)
  induction h with
  | single h => exact hkey h
  | more _ h ih => exact hP.append (hP.append ih (hP.single rfl)) (hkey h)

theorem listClause (hP : Composable P) {k : Keyword} (hk : k ≠ .with_) {ts : List Token} {es : List Expr}
    (h : ListClause k ts es) : P ts := by
  cases h with
  | absent => exact hP.nil
  | present w b h => exact hP.append (hP.pair (by cases k <;> first | rfl | contradiction) rfl) (hP.expressions h)

theorem orderClause (hP : Composable P) {ts : List Token} {os : List OrderItem} (h : OrderClause ts os) : P ts := by
  cases h with
  | absent => exact hP.nil
  | present w b h => exact hP.append (hP.pair rfl rfl) (hP.orderKeys h)

theorem window (hP : Composable P) {ts : List Token} {w : Window} (h : WindowCall ts w) : P ts := by
  obtain @⟨t, name, ps, os, partition, order, o, hn, hp, ho⟩ := h
  have hcall := hP.append (hP.functionName hn) (hP.paren hP.nil)
  have hover := hP.append hcall (hP.single (t := .keyword .over_ o) rfl)
  simpa using hP.append hover (hP.paren (hP.append (hP.listClause (by decide) hp) (hP.orderClause ho)))

theorem content (hP : Composable P) {ts : List Token} {c : Selected} (h : ItemContent ts c) : P ts := by
  cases h with
  | expr h => exact hP.expression h
  | window h => exact hP.window h

theorem items (hP : Composable P) {ts : List Token} {is : List SelectItem} (h : Items ts is) : P ts := by
  have hitem {us : List Token} {i : SelectItem} (h : Item us i) : P us := by
    cases h with
    | star => exact hP.single rfl
    | bare h => exact hP.content h
    | labelled w h hl =>
      refine hP.append (hP.content h) ?_
      cases hl <;> exact hP.pair rfl rfl
  induction h with
  | single h => exact hitem h
  | more _ h ih => exact hP.append (hP.append ih (hP.single rfl)) (hitem h)

theorem condition (hP : Composable P) {n : Nat} {ts : List Token} {p : Predicate} (h : Condition n ts p) : P ts := by
  induction h with
  | truth h => exact hP.expression h
  | compare _ ha ht hb =>
    exact hP.append (hP.append (hP.expression ha) (hP.single (by cases ht <;> rfl))) (hP.expression hb)
  | and _ _ _ _ ihp ihq => exact hP.append (hP.append ihp (hP.single rfl)) ihq
  | or _ _ _ _ ihp ihq => exact hP.append (hP.append ihp (hP.single rfl)) ihq
  | paren _ ih => exact hP.paren ih

theorem conditionClause (hP : Composable P) {k : Keyword} (hk : k ≠ .with_) {ts : List Token} {p : Option Predicate}
    (h : ConditionClause k ts p) : P ts := by
  cases h with
  | absent => exact hP.nil
  | present w h => exact hP.append (hP.single (by cases k <;> first | rfl | contradiction)) (hP.condition h)

theorem tablePath (hP : Composable P) {ts : List Token} {name : String} (h : TablePath ts name) : P ts := by
  cases h with
  | column h => exact hP.column h
  | text => exact hP.single rfl

theorem joins (hP : Composable P) {ts : List Token} {js : List Join} (h : Joins ts js) : P ts := by
  have hjoin {us : List Token} {j : Join} (h : JoinClause us j) : P us := by
    obtain @⟨ks, _, _, _, _, _, _, _, w, on_, hwords, htable, hleft, hright⟩ := h
    have hkind : P ks := by
      cases hwords with
      | none => exact hP.nil
      | inner | left | right | full => exact hP.single rfl
      | leftOuter | rightOuter | fullOuter => exact hP.pair rfl rfl
    have hfront := hP.append (hP.append hkind (hP.single (t := .keyword .join w) rfl)) (hP.tablePath htable)
    have hkeys := hP.append (hP.append hfront (hP.single (t := .keyword .on_ on_) rfl)) (hP.column hleft)
    exact hP.append (hP.append hkeys (hP.single rfl)) (hP.column hright)
  induction h with
  | none => exact hP.nil
  | more _ h ih => exact hP.append ih (hjoin h)

/-- What holds of rows put together from parts holds of a statement. -/
theorem sentence (hP : Composable P) {ts : List Token} {plan : Plan} (h : Sentence ts plan) : P ts := by
  have hselect {ts : List Token} {plan : Plan} (h : Select ts plan) : P ts := by
    obtain @⟨ds, is, ps, js, ws, gs, hs, os, ls, fs, _, _, _, _, _, _, _, _, _, _, w, from_, hd, hi, hp, hj, hw, hg, hh, ho,
      hl, hf⟩ := h
    have hds : P ds := by
      cases hd with
      | absent => exact hP.nil
      | present => exact hP.single rfl
    have hls : P ls := by
      cases hl with
      | absent => exact hP.nil
      | present => exact hP.pair rfl rfl
    have hfs : P fs := by
      cases hf with
      | absent => exact hP.nil
      | present => exact hP.pair rfl rfl
    have hitems := hP.append (hP.append (hP.single (t := .keyword .select w) rfl) hds) (hP.items hi)
    have htables := hP.append (hP.append (hP.append hitems (hP.single (t := .keyword .from_ from_) rfl)) (hP.tablePath hp))
      (hP.joins hj)
    have hrows := hP.append (hP.append (hP.append htables (hP.conditionClause (by decide) hw)) (hP.listClause (by decide) hg))
      (hP.conditionClause (by decide) hh)
    exact hP.append (hP.append (hP.append hrows (hP.orderClause ho)) hls) hfs
  cases h with
  | bare h => exact hselect h
  | closed h => exact hP.append (hselect h) (hP.single rfl)

end Composable

end JsonTables.Grammar
