/-
  JsonTables.Proofs.Statement.Clauses — the located clauses of a statement are those that the grammar finds.

  Clauses are located by words outside parentheses, and the grammar cuts a statement into its clauses. Both
  agree because what stands in a clause behind its first word is quiet: outside parentheses no word of it
  opens a clause. The order inside a window stands in parentheses, and what those hold is never looked at.

  Proved:
  - `quiet_items`, `quiet_joins`, `quiet_condition`, ..: what a clause is made of is quiet.
  - `select_iff_cut`: the statements of the grammar are those that can be cut into clauses.
  - `locate_parts`: the located clauses of such a statement are its parts.
  - `locate_agrees_with_grammar`: so it is for every text that is accepted.
-/

import JsonTables.Proofs.Clause.Located

namespace JsonTables.Statement

open Grammar Clause

/-! ## What opens no clause -/

/-- In parentheses, none of the tokens stands outside them. -/
structure Enclosed (ts : List Token) : Prop where
  balanced : Balanced ts
  inside : ∀ (xs : List Lexeme), xs.map (·.token) = ts → ∀ depth, ∀ y ∈ withDepth (depth + 1) xs, y.2 ≠ 0

theorem withDepth_paren {l r : Lexeme} {inner : List Lexeme} (hl : l.token = .symbol .leftParen)
    (hr : r.token = .symbol .rightParen) (hinner : Balanced (inner.map (·.token))) (depth : Nat) :
    withDepth depth (l :: (inner ++ [r])) = (l, depth) :: (withDepth (depth + 1) inner ++ [(r, depth)]) := by
  have hopen : withDepth depth (l :: (inner ++ [r])) = (l, depth) :: withDepth (depth + 1) (inner ++ [r]) := by
    simp [withDepth, Lexeme.isSymbol, hl]
  rw [hopen, withDepth_append, hinner]
  simp [withDepth, Lexeme.isSymbol, hr]

/-- What may stand in an item is no parenthesis, so the depth stays as it is. -/
theorem withDepth_of_isPart {x : Lexeme} (h : isPart x.token = true) (depth : Nat) (xs : List Lexeme) :
    withDepth depth (x :: xs) = (x, depth) :: withDepth depth xs := by
  have hr : x.token ≠ .symbol .rightParen := by
    intro he
    rw [he] at h
    cases h
  have hl : x.token ≠ .symbol .leftParen := by
    intro he
    rw [he] at h
    cases h
  exact withDepth_cons hr hl depth xs

/-- A row of lexemes for something in parentheses. -/
theorem exists_paren {xs : List Lexeme} {ts : List Token}
    (h : xs.map (·.token) = [.symbol .leftParen] ++ ts ++ [.symbol .rightParen]) :
    ∃ l inner r, xs = l :: (inner ++ [r]) ∧ l.token = .symbol .leftParen ∧ inner.map (·.token) = ts ∧
      r.token = .symbol .rightParen := by
  obtain ⟨front, close, rfl, hfront, hclose⟩ := List.map_eq_append_iff.mp h
  obtain ⟨r, rfl, hr⟩ := List.map_eq_singleton_iff.mp hclose
  obtain ⟨l, inner, rfl, hl, hinner⟩ := List.map_eq_cons_iff.mp hfront
  exact ⟨l, inner, r, rfl, hl, hinner, hr⟩

theorem composable_enclosed : Composable Enclosed where
  nil := by
    refine ⟨composable_balanced.nil, fun xs hxs depth y hy => ?_⟩
    obtain rfl := List.map_eq_nil_iff.mp hxs
    cases hy
  single := by
    intro t ht
    refine ⟨composable_balanced.single ht, fun xs hxs depth y hy => ?_⟩
    obtain ⟨x, rfl, rfl⟩ := List.map_eq_singleton_iff.mp hxs
    rw [withDepth_of_isPart ht] at hy
    obtain rfl := List.mem_singleton.mp hy
    exact Nat.succ_ne_zero depth
  append := by
    intro ts us ht hu
    refine ⟨ht.balanced.append hu.balanced, fun xs hxs depth y hy => ?_⟩
    obtain ⟨as, bs, rfl, has, hbs⟩ := List.map_eq_append_iff.mp hxs
    rw [withDepth_append, has, ht.balanced] at hy
    rcases List.mem_append.mp hy with hy | hy
    · exact ht.inside as has depth y hy
    · exact hu.inside bs hbs depth y hy
  paren := by
    intro ts ht
    refine ⟨ht.balanced.paren, fun xs hxs depth y hy => ?_⟩
    obtain ⟨l, inner, r, rfl, hl, rfl, hr⟩ := exists_paren hxs
    rw [withDepth_paren hl hr ht.balanced, List.mem_cons, List.mem_append, List.mem_singleton] at hy
    rcases hy with rfl | hy | rfl
    · exact Nat.succ_ne_zero depth
    · exact ht.inside inner rfl (depth + 1) y hy
    · exact Nat.succ_ne_zero depth

/-- Outside parentheses none of the tokens opens a clause, whatever follows. -/
structure Quiet (ts : List Token) : Prop where
  balanced : Balanced ts
  silent : ∀ (xs : List Lexeme), xs.map (·.token) = ts → ∀ behind, openings (withDepth 0 xs ++ behind) = openings behind

/-- The tokens that open no clause and are no parentheses. -/
def isQuiet : Token → Bool
  | .symbol .leftParen | .symbol .rightParen => false
  | .keyword .select _ | .keyword .from_ _ | .keyword .where_ _ | .keyword .group _ | .keyword .having _
  | .keyword .order _ | .keyword .limit _ | .keyword .offset _ | .keyword .with_ _ => false
  | _ => true

theorem isPart_of_isQuiet {t : Token} (h : isQuiet t = true) : isPart t = true := by
  cases t with
  | symbol s => cases s <;> first | rfl | cases h
  | keyword k w => cases k <;> first | rfl | cases h
  | _ => rfl

theorem opened?_of_isQuiet {x : Lexeme} (h : isQuiet x.token = true) (next : Option Lexeme) : opened? x next = none := by
  unfold opened?
  dsimp only
  split <;> rename_i heq <;> first | rfl | (rw [heq] at h; cases h)

namespace Quiet

theorem nil : Quiet [] := by
  refine ⟨composable_balanced.nil, fun xs hxs behind => ?_⟩
  obtain rfl := List.map_eq_nil_iff.mp hxs
  rfl

theorem single {t : Token} (h : isQuiet t = true) : Quiet [t] := by
  refine ⟨composable_balanced.single (isPart_of_isQuiet h), fun xs hxs behind => ?_⟩
  obtain ⟨x, rfl, rfl⟩ := List.map_eq_singleton_iff.mp hxs
  rw [withDepth_of_isPart (isPart_of_isQuiet h)]
  show openings ((x, 0) :: behind) = openings behind
  rw [openings_cons, if_pos rfl, opened?_of_isQuiet h]

theorem append {ts us : List Token} (ht : Quiet ts) (hu : Quiet us) : Quiet (ts ++ us) := by
  refine ⟨ht.balanced.append hu.balanced, fun xs hxs behind => ?_⟩
  obtain ⟨as, bs, rfl, has, hbs⟩ := List.map_eq_append_iff.mp hxs
  rw [withDepth_append, has, ht.balanced, List.append_assoc, ht.silent as has, hu.silent bs hbs]

/-- What stands inside parentheses is passed over. -/
theorem openings_inside {entries : List (Lexeme × Nat)} (h : ∀ y ∈ entries, y.2 ≠ 0) (behind : List (Lexeme × Nat)) :
    openings (entries ++ behind) = openings behind := by
  induction entries with
  | nil => rfl
  | cons entry rest ih =>
    obtain ⟨x, depth⟩ := entry
    obtain ⟨hdepth, hrest⟩ := List.forall_mem_cons.mp h
    rw [List.cons_append, openings_cons, if_neg hdepth]
    exact ih hrest

theorem paren {ts : List Token} (h : Enclosed ts) : Quiet ([.symbol .leftParen] ++ ts ++ [.symbol .rightParen]) := by
  refine ⟨h.balanced.paren, fun xs hxs behind => ?_⟩
  obtain ⟨l, inner, r, rfl, hl, rfl, hr⟩ := exists_paren hxs
  have hnone {x : Lexeme} {s : Symbol} (hx : x.token = .symbol s) (next : Option Lexeme) : opened? x next = none := by
    simp [opened?, hx]
  rw [withDepth_paren hl hr h.balanced, List.cons_append, List.append_assoc, openings_cons, if_pos rfl, hnone hl]
  show openings (withDepth 1 inner ++ ([(r, 0)] ++ behind)) = openings behind
  rw [openings_inside (h.inside inner rfl 0)]
  show openings ((r, 0) :: behind) = openings behind
  rw [openings_cons, if_pos rfl, hnone hr]

theorem pair {t u : Token} (ht : isQuiet t = true) (hu : isQuiet u = true) : Quiet [t, u] := (single ht).append (single hu)

end Quiet

/-! ## What clauses are made of -/

theorem quiet_column {ts : List Token} {name : String} (h : Column ts name) : Quiet ts := by
  induction h with
  | single => exact .single rfl
  | dotted part _ ih => exact ih.append (.pair rfl rfl)

theorem quiet_functionName {t : Token} {name : String} (h : FunctionName t name) : Quiet [t] := by
  cases h <;> exact .single rfl

mutual

theorem quiet_expression {n : Nat} {ts : List Token} {e : Expr} : Expression n ts e → Quiet ts
  | .integer _ | .float _ | .text _ | .true_ _ | .false_ _ | .null _ => .single rfl
  | .column h => quiet_column h
  | .callEmpty h => (quiet_functionName h).append (.paren composable_enclosed.nil)
  | .callStar h => (quiet_functionName h).append (.paren (composable_enclosed.single rfl))
  | .call hf h => by
    simpa using (quiet_functionName hf).append (.paren (composable_enclosed.expressions h))
  | .paren h => .paren (composable_enclosed.expression h)
  | .minusNumber _ h | .minus _ h _ => (Quiet.single rfl).append (quiet_expression h)
  | .binary op _ ha hb =>
    ((quiet_expression ha).append (.single (by cases op <;> rfl))).append (quiet_expression hb)

theorem quiet_expressions {ts : List Token} {es : List Expr} : Expressions ts es → Quiet ts
  | .single h => quiet_expression h
  | .more hl h => ((quiet_expressions hl).append (.single rfl)).append (quiet_expression h)

end

theorem quiet_orderKeys {ts : List Token} {os : List OrderItem} (h : OrderKeys ts os) : Quiet ts := by
  have hkey {us : List Token} {o : OrderItem} (h : OrderKey us o) : Quiet us := by
    cases h with
    | bare h => exact quiet_expression h
    | asc w h => exact (quiet_expression h).append (.single rfl)
    | desc w h => exact (quiet_expression h).append (.single rfl)
  induction h with
  | single h => exact hkey h
  | more _ h ih => exact (ih.append (.single rfl)).append (hkey h)

/-- The order inside a window stands in parentheses. -/
theorem quiet_window {ts : List Token} {w : Window} (h : WindowCall ts w) : Quiet ts := by
  obtain @⟨t, name, ps, os, partition, order, o, hn, hp, ho⟩ := h
  have hcall := (quiet_functionName hn).append (.paren composable_enclosed.nil)
  have hover := hcall.append (.single (t := .keyword .over_ o) rfl)
  simpa using hover.append (.paren (composable_enclosed.append (composable_enclosed.listClause (by decide) hp)
    (composable_enclosed.orderClause ho)))

theorem quiet_items {ts : List Token} {is : List SelectItem} (h : Items ts is) : Quiet ts := by
  have hcontent {us : List Token} {c : Selected} (h : ItemContent us c) : Quiet us := by
    cases h with
    | expr h => exact quiet_expression h
    | window h => exact quiet_window h
  have hitem {us : List Token} {i : SelectItem} (h : Item us i) : Quiet us := by
    cases h with
    | star => exact .single rfl
    | bare h => exact hcontent h
    | labelled w h hl =>
      refine (hcontent h).append ?_
      cases hl <;> exact .pair rfl rfl
  induction h with
  | single h => exact hitem h
  | more _ h ih => exact (ih.append (.single rfl)).append (hitem h)

theorem quiet_condition {n : Nat} {ts : List Token} {p : Predicate} (h : Condition n ts p) : Quiet ts := by
  induction h with
  | truth h => exact quiet_expression h
  | compare _ ha ht hb =>
    exact ((quiet_expression ha).append (.single (by cases ht <;> rfl))).append (quiet_expression hb)
  | and _ _ _ _ ihp ihq => exact (ihp.append (.single rfl)).append ihq
  | or _ _ _ _ ihp ihq => exact (ihp.append (.single rfl)).append ihq
  | paren h _ => exact .paren (composable_enclosed.condition h)

theorem quiet_tablePath {ts : List Token} {name : String} (h : TablePath ts name) : Quiet ts := by
  cases h with
  | column h => exact quiet_column h
  | text => exact .single rfl

theorem quiet_joins {ts : List Token} {js : List Join} (h : Joins ts js) : Quiet ts := by
  have hjoin {us : List Token} {j : Join} (h : JoinClause us j) : Quiet us := by
    obtain @⟨ks, _, _, _, _, _, _, _, w, on_, hwords, htable, hleft, hright⟩ := h
    have hkind : Quiet ks := by
      cases hwords with
      | none => exact .nil
      | inner | left | right | full => exact .single rfl
      | leftOuter | rightOuter | fullOuter => exact .pair rfl rfl
    have hfront := (hkind.append (.single (t := .keyword .join w) rfl)).append (quiet_tablePath htable)
    have hkeys := (hfront.append (.single (t := .keyword .on_ on_) rfl)).append (quiet_column hleft)
    exact (hkeys.append (.single rfl)).append (quiet_column hright)
  induction h with
  | none => exact .nil
  | more _ h ih => exact ih.append (hjoin h)

/-! ## Statements cut into clauses -/

/-- A statement cut into its clauses, each with its tokens. -/
inductive Cut : List (Clause × List Token) → Plan → Prop
  | mk {ds is ps js ws gs hs os ls fs : List Token} {distinct : Bool} {items : List SelectItem}
      {table : String} {joins : List Join} {where_ having : Option Predicate} {groupBy : List Expr}
      {orderBy : List OrderItem} {limit : Option Nat} {offset : Nat} (w from_ : String) :
      DistinctWord ds distinct → Items is items → TablePath ps table → Joins js joins →
      ConditionClause .where_ ws where_ → ListClause .group gs groupBy → ConditionClause .having hs having →
      OrderClause os orderBy → LimitClause ls limit → OffsetClause fs offset →
      Cut ((.select, .keyword .select w :: (ds ++ is)) :: (.from_, .keyword .from_ from_ :: (ps ++ js)) ::
          [(.where_, ws), (.groupBy, gs), (.having, hs), (.orderBy, os), (.limit, ls), (.offset, fs)].filter (!·.2.isEmpty))
        ⟨distinct, items, table, joins, where_, groupBy, having, orderBy, limit, offset, Hints.empty⟩

theorem flatMap_filter_isEmpty (parts : List (Clause × List Token)) :
    (parts.filter (!·.2.isEmpty)).flatMap Prod.snd = parts.flatMap Prod.snd := by
  induction parts with
  | nil => rfl
  | cons p parts ih =>
    obtain ⟨c, ts⟩ := p
    cases ts with
    | nil => simpa using ih
    | cons t ts => simpa using ih

/-- The statements of the grammar are those that can be cut into clauses. -/
theorem select_iff_cut {ts : List Token} {plan : Plan} :
    Select ts plan ↔ ∃ parts, Cut parts plan ∧ parts.flatMap Prod.snd = ts := by
  constructor
  · rintro ⟨w, from_, hd, hi, hp, hj, hw, hg, hh, ho, hl, hf⟩
    refine ⟨_, .mk w from_ hd hi hp hj hw hg hh ho hl hf, ?_⟩
    simp only [List.flatMap_cons, flatMap_filter_isEmpty]
    simp
  · rintro ⟨parts, ⟨w, from_, hd, hi, hp, hj, hw, hg, hh, ho, hl, hf⟩, rfl⟩
    have hselect := Select.mk w from_ hd hi hp hj hw hg hh ho hl hf
    simp only [List.flatMap_cons, flatMap_filter_isEmpty]
    simpa using hselect

/-- The tokens start with what opens the clause, and no other clause opens among them. -/
structure Opens (c : Clause) (ts : List Token) : Prop where
  ne_nil : ts ≠ []
  balanced : Balanced ts
  opening : ∀ (x : Lexeme) (xs : List Lexeme), (x :: xs).map (·.token) = ts → ∀ behind,
    openings (withDepth 0 (x :: xs) ++ behind) = ⟨c, x.position⟩ :: openings behind

section Words

variable {k : Keyword} {c : Clause} {ts : List Token}

theorem balanced_word (w : String) (h : Balanced ts) : Balanced (.keyword k w :: ts) := h

theorem withDepth_word {x : Lexeme} {w : String} (h : x.token = .keyword k w) (xs : List Lexeme) :
    withDepth 0 (x :: xs) = (x, 0) :: withDepth 0 xs :=
  withDepth_cons (by simp [h]) (by simp [h]) 0 xs

theorem opens_word {w : String} (hopened : ∀ x next, x.token = .keyword k w → opened? x next = some c) (h : Quiet ts) :
    Opens c (.keyword k w :: ts) := by
  refine ⟨List.cons_ne_nil _ _, balanced_word w h.balanced, fun x xs hxs behind => ?_⟩
  obtain ⟨hx, hxs⟩ := List.cons.inj hxs
  rw [withDepth_word hx, List.cons_append, openings_cons, if_pos rfl, hopened x _ hx]
  exact congrArg _ (h.silent xs hxs behind)

/-- `BY` stands right behind the word. -/
theorem opens_pair {w by_ : String}
    (hopened : ∀ x y, x.token = .keyword k w → y.isKeyword .by_ = true → opened? x (some y) = some c) (h : Quiet ts) :
    Opens c ([.keyword k w, .keyword .by_ by_] ++ ts) := by
  have hquiet : Quiet (.keyword .by_ by_ :: ts) := (Quiet.single rfl).append h
  refine ⟨List.cons_ne_nil _ _, balanced_word w hquiet.balanced, fun x xs hxs behind => ?_⟩
  obtain ⟨hx, hxs⟩ := List.cons.inj hxs
  obtain ⟨y, ys, rfl, hy, hys⟩ := List.map_eq_cons_iff.mp hxs
  have hnext : ((withDepth 0 (y :: ys) ++ behind).head?.map Prod.fst) = some y := by
    rw [withDepth_word hy]
    rfl
  rw [withDepth_word hx, List.cons_append, openings_cons, if_pos rfl, hnext, hopened x y hx (by simp [Lexeme.isKeyword, hy])]
  exact congrArg _ (hquiet.silent _ hxs behind)

theorem opens_conditionClause {p : Option Predicate}
    (hopened : ∀ x w next, x.token = .keyword k w → opened? x next = some c) (h : ConditionClause k ts p) (hne : ts ≠ []) :
    Opens c ts := by
  cases h with
  | absent => exact absurd rfl hne
  | present w h => exact opens_word (fun x next hx => hopened x w next hx) (quiet_condition h)

end Words

theorem Cut.opens {parts : List (Clause × List Token)} {plan : Plan} (h : Cut parts plan) : ∀ p ∈ parts, Opens p.1 p.2 := by
  obtain @⟨ds, is, ps, js, ws, gs, hs, os, ls, fs, _, _, _, _, _, _, _, _, _, _, w, from_, hd, hi, hp, hj, hw, hg, hh, ho, hl,
    hf⟩ := h
  have hds : Quiet ds := by
    cases hd with
    | absent => exact .nil
    | present => exact .single rfl
  have hselect : Opens .select (.keyword .select w :: (ds ++ is)) :=
    opens_word (fun x next hx => by simp [opened?, hx]) (hds.append (quiet_items hi))
  have hfrom : Opens .from_ (.keyword .from_ from_ :: (ps ++ js)) :=
    opens_word (fun x next hx => by simp [opened?, hx]) ((quiet_tablePath hp).append (quiet_joins hj))
  have hwhere : ws ≠ [] → Opens .where_ ws := opens_conditionClause (fun x w next hx => by simp [opened?, hx]) hw
  have hgroup : gs ≠ [] → Opens .groupBy gs := by
    cases hg with
    | absent => exact fun hne => absurd rfl hne
    | present w b h => exact fun _ => opens_pair (fun x y hx hy => by simp [opened?, hx, hy]) (quiet_expressions h)
  have hhaving : hs ≠ [] → Opens .having hs := opens_conditionClause (fun x w next hx => by simp [opened?, hx]) hh
  have horder : os ≠ [] → Opens .orderBy os := by
    cases ho with
    | absent => exact fun hne => absurd rfl hne
    | present w b h => exact fun _ => opens_pair (fun x y hx hy => by simp [opened?, hx, hy]) (quiet_orderKeys h)
  have hlimit : ls ≠ [] → Opens .limit ls := by
    cases hl with
    | absent => exact fun hne => absurd rfl hne
    | present w n => exact fun _ => opens_word (fun x next hx => by simp [opened?, hx]) (.single rfl)
  have hoffset : fs ≠ [] → Opens .offset fs := by
    cases hf with
    | absent => exact fun hne => absurd rfl hne
    | present w n => exact fun _ => opens_word (fun x next hx => by simp [opened?, hx]) (.single rfl)
  intro p hp
  simp only [List.mem_cons, List.mem_filter, List.not_mem_nil, or_false, Bool.not_eq_true', List.isEmpty_eq_false_iff] at hp
  obtain rfl | rfl | ⟨rfl | rfl | rfl | rfl | rfl | rfl, hne⟩ := hp
  · exact hselect
  · exact hfrom
  · exact hwhere hne
  · exact hgroup hne
  · exact hhaving hne
  · exact horder hne
  · exact hlimit hne
  · exact hoffset hne

/-- The clauses come in their order. -/
theorem Cut.pairwise_rank {parts : List (Clause × List Token)} {plan : Plan} (h : Cut parts plan) :
    parts.Pairwise fun p q => rank p.1 < rank q.1 := by
  cases h with
  | @mk ds is ps js ws gs hs os ls fs =>
    have hall : [(Clause.where_, ws), (.groupBy, gs), (.having, hs), (.orderBy, os), (.limit, ls), (.offset, fs)].Pairwise
        fun p q => rank p.1 < rank q.1 := by
      simp [rank]
    have hlate : ∀ p ∈ [(Clause.where_, ws), (.groupBy, gs), (.having, hs), (.orderBy, os), (.limit, ls), (.offset, fs)],
        1 < rank p.1 := by
      simp [rank]
    have hbehind := fun p hp => hlate p (List.mem_of_mem_filter (p := (!·.2.isEmpty)) hp)
    refine List.pairwise_cons.mpr ⟨List.forall_mem_cons.mpr ⟨Nat.zero_lt_one, fun p hp => Nat.zero_lt_of_lt (hbehind p hp)⟩, ?_⟩
    exact List.pairwise_cons.mpr ⟨hbehind, hall.filter _⟩

/-- The clauses that a plan tells of; whether there is an offset clause, it does not tell. -/
def Asks (plan : Plan) (hasOffset : Prop) : Clause → Prop
  | .select | .from_ => True
  | .where_ => plan.where_.isSome
  | .groupBy => plan.groupBy ≠ []
  | .having => plan.having.isSome
  | .orderBy => plan.orderBy ≠ []
  | .limit => plan.limit.isSome
  | .offset => hasOffset
  | .with_ => False

section Presence

variable {ts : List Token}

theorem conditionClause_ne_nil {k : Keyword} {p : Option Predicate} (h : ConditionClause k ts p) : ts ≠ [] ↔ p.isSome := by
  cases h <;> simp

theorem expressions_ne_nil {es : List Expr} (h : Expressions ts es) : es ≠ [] := by
  cases h <;> simp

theorem orderKeys_ne_nil {os : List OrderItem} (h : OrderKeys ts os) : os ≠ [] := by
  cases h <;> simp

theorem listClause_ne_nil {k : Keyword} {es : List Expr} (h : ListClause k ts es) : ts ≠ [] ↔ es ≠ [] := by
  cases h with
  | absent => simp
  | present w b h => simp [expressions_ne_nil h]

theorem orderClause_ne_nil {os : List OrderItem} (h : OrderClause ts os) : ts ≠ [] ↔ os ≠ [] := by
  cases h with
  | absent => simp
  | present w b h => simp [orderKeys_ne_nil h]

theorem limitClause_ne_nil {n : Option Nat} (h : LimitClause ts n) : ts ≠ [] ↔ n.isSome := by
  cases h <;> simp

end Presence

theorem Cut.mem_iff {parts : List (Clause × List Token)} {plan : Plan} (h : Cut parts plan) (c : Clause) :
    c ∈ parts.map Prod.fst ↔ Asks plan (.offset ∈ parts.map Prod.fst) c := by
  cases h with
  | mk w from_ hd hi hp hj hw hg hh ho hl hf =>
    have hwhere := conditionClause_ne_nil hw
    have hgroup := listClause_ne_nil hg
    have hhaving := conditionClause_ne_nil hh
    have horder := orderClause_ne_nil ho
    have hlimit := limitClause_ne_nil hl
    cases c <;> simp_all [Asks]

theorem Cut.offset_eq_zero {parts : List (Clause × List Token)} {plan : Plan} (h : Cut parts plan)
    (hoffset : .offset ∉ parts.map Prod.fst) : plan.offset = 0 := by
  cases h with
  | mk w from_ hd hi hp hj hw hg hh ho hl hf =>
    cases hf with
    | absent => rfl
    | present w n => simp at hoffset

/-! ## Texts cut into clauses -/

/-- A clause of a text: its first lexeme and those behind it. -/
structure ClausePart where
  clause : Clause
  first : Lexeme
  rest : List Lexeme

namespace ClausePart

def lexemes (p : ClausePart) : List Lexeme := p.first :: p.rest

def tokens (p : ClausePart) : Clause × List Token := (p.clause, p.lexemes.map (·.token))

/-- The clause at the place of its first lexeme. -/
def located (p : ClausePart) : LocatedClause := ⟨p.clause, p.first.position⟩

end ClausePart

open ClausePart

theorem exists_parts {parts : List (Clause × List Token)} (h : ∀ p ∈ parts, p.2 ≠ []) {xs : List Lexeme} {ts : List Token}
    (hxs : xs.map (·.token) = parts.flatMap Prod.snd ++ ts) :
    ∃ (cs : List ClausePart) (ends : List Lexeme), cs.map tokens = parts ∧ xs = cs.flatMap lexemes ++ ends ∧
      ends.map (·.token) = ts := by
  induction parts generalizing xs with
  | nil => exact ⟨[], xs, rfl, rfl, hxs⟩
  | cons p parts ih =>
    obtain ⟨hp, hparts⟩ := List.forall_mem_cons.mp h
    obtain ⟨c, us⟩ := p
    obtain ⟨u, us, rfl⟩ := List.exists_cons_of_ne_nil hp
    rw [List.flatMap_cons, List.append_assoc] at hxs
    obtain ⟨ys, zs, rfl, hys, hzs⟩ := List.map_eq_append_iff.mp hxs
    obtain ⟨y, ys, rfl, rfl, rfl⟩ := List.map_eq_cons_iff.mp hys
    obtain ⟨cs, ends, rfl, rfl, hends⟩ := ih hparts hzs
    exact ⟨⟨c, y, ys⟩ :: cs, ends, rfl, by simp [lexemes], hends⟩

theorem openings_parts {cs : List ClausePart} (h : ∀ p ∈ cs.map tokens, Opens p.1 p.2) (behind : List Lexeme) :
    openings (withDepth 0 (cs.flatMap lexemes ++ behind)) = cs.map located ++ openings (withDepth 0 behind) := by
  induction cs with
  | nil => rfl
  | cons c cs ih =>
    obtain ⟨hc, hcs⟩ := List.forall_mem_cons.mp h
    have hdepth : depthAfter 0 (c.lexemes.map (·.token)) = 0 := hc.balanced 0
    rw [List.flatMap_cons, List.append_assoc, withDepth_append, hdepth]
    refine (hc.opening c.first c.rest rfl _).trans ?_
    rw [ih hcs]
    rfl

/-- The located clauses of a statement are its parts. -/
theorem locate_parts {cs : List ClausePart} {ends : List Lexeme} {plan : Plan} (h : Cut (cs.map tokens) plan)
    (hends : Quiet (ends.map (·.token))) : locate (cs.flatMap lexemes ++ ends) = cs.map located := by
  have hsilent : openings (withDepth 0 ends) = [] := by
    simpa [openings] using hends.silent ends rfl []
  have hnodup : ((cs.map located).map (·.clause)).Nodup := by
    have hranks := h.pairwise_rank
    rw [List.pairwise_map] at hranks
    rw [List.map_map, List.Nodup, List.pairwise_map]
    refine hranks.imp fun {p q} hlt he => ?_
    have hclause : p.clause = q.clause := he
    exact absurd hlt (by simp [tokens, hclause])
  rw [locate, openings_parts h.opens, hsilent, List.append_nil]
  exact firstOnly_of_nodup (fun _ _ => List.not_mem_nil) hnodup

/-- An accepted text is lexed without its hints, and what it says then is the plan without them. -/
theorem exists_of_parse {sql : String} {plan : Plan} (h : parse sql = .ok plan) :
    ∃ extraction lexemes, Hint.extract (body sql.toList) = .ok extraction ∧ Token.lex extraction.text = .ok lexemes ∧
      Sentence (lexemes.map (·.token)) { plan with hints := Hints.empty } := by
  obtain ⟨extraction, plan', hextract, hclauses, rfl, -⟩ := (parse_iff_means.mp ⟨h, rfl⟩).extract
  cases hlex : Token.lex extraction.text with
  | error m =>
    simp only [parseClauses, hlex, bind, Except.bind] at hclauses
    cases hclauses
  | ok lexemes =>
    have hsentence := (parseClauses_eq_ok hlex).mp hclauses
    refine ⟨extraction, lexemes, hextract, hlex, ?_⟩
    dsimp only
    rw [← hints_of_sentence hsentence]
    exact hsentence

/-- The lexemes are those of the clauses of a statement, apart from a last semicolon, and the located clauses are
these, each at its first word. -/
structure ClausesAgree (plan : Plan) (lexemes : List Lexeme) (parts : List ClausePart) (ends : List Lexeme) : Prop where
  cut : Cut (parts.map tokens) { plan with hints := Hints.empty }
  lexemes_eq : lexemes = parts.flatMap ClausePart.lexemes ++ ends
  ends_eq : ends.map (·.token) = [] ∨ ends.map (·.token) = [.symbol .semicolon]
  locate_eq : locate lexemes = parts.map located
  /-- A clause is located if the plan tells of it, and `OFFSET` if it is among the clauses. -/
  present_iff : ∀ c, (∃ x ∈ locate lexemes, x.clause = c) ↔ Asks plan (.offset ∈ parts.map (·.clause)) c
  offset_eq_zero : .offset ∉ parts.map (·.clause) → plan.offset = 0
  ordered : (locate lexemes).Pairwise fun x y => rank x.clause < rank y.clause ∧ x.start < y.start
  /-- Nothing inside parentheses is located, so nothing in a window. -/
  outside : ∀ y depth, (y, depth) ∈ withDepth 0 lexemes → depth ≠ 0 → ∀ x ∈ locate lexemes, x.start ≠ y.position

/-- In every text that is accepted the located clauses are those that the grammar finds. -/
theorem locate_agrees_with_grammar {sql : String} {plan : Plan} (h : parse sql = .ok plan) :
    ∃ extraction lexemes, Hint.extract (body sql.toList) = .ok extraction ∧ Token.lex extraction.text = .ok lexemes ∧
      ∃ parts ends, ClausesAgree plan lexemes parts ends := by
  obtain ⟨extraction, xs, hextract, hlex, hsentence⟩ := exists_of_parse h
  have hplaces := Token.inPlace_of_lexFrom hlex
  obtain ⟨ts, ends, hselect, htokens, hends⟩ : ∃ ts ends, Select ts { plan with hints := Hints.empty } ∧
      xs.map (·.token) = ts ++ ends ∧ (ends = [] ∨ ends = [.symbol .semicolon]) := by
    generalize hts : xs.map (·.token) = all at hsentence
    cases hsentence with
    | bare hselect => exact ⟨_, [], hselect, (List.append_nil _).symm, .inl rfl⟩
    | closed hselect => exact ⟨_, _, hselect, rfl, .inr rfl⟩
  obtain ⟨cuts, hcut, rfl⟩ := select_iff_cut.mp hselect
  obtain ⟨parts, ends, rfl, rfl, rfl⟩ := exists_parts (fun p hp => (hcut.opens p hp).ne_nil) htokens
  have hquiet : Quiet (ends.map (·.token)) := by
    rcases hends with he | he
    · rw [he]
      exact .nil
    · rw [he]
      exact .single rfl
  have hlocate := locate_parts hcut hquiet
  have hfst : (parts.map tokens).map Prod.fst = parts.map (·.clause) := List.map_map
  refine ⟨extraction, _, hextract, hlex, parts, ends, hcut, rfl, hends, hlocate, fun c => ?_, fun hoffset => ?_, ?_,
    fun y depth hy hdepth x hx => start_ne_of_inside hplaces hy hdepth hx⟩
  · have hmem := hcut.mem_iff c
    rw [hfst] at hmem
    rw [hlocate]
    have hlocated : (∃ x ∈ parts.map located, x.clause = c) ↔ c ∈ parts.map (·.clause) := by simp [located]
    rw [hlocated, hmem]
    cases c <;> rfl
  · rw [← hfst] at hoffset
    exact hcut.offset_eq_zero hoffset
  · refine List.Pairwise.and ?_ (locate_pairwise hplaces)
    rw [hlocate, List.pairwise_map]
    have hranks := hcut.pairwise_rank
    rw [List.pairwise_map] at hranks
    exact hranks

/-- The order of a window is no clause, and `OFFSET 0` is one that the plan does not show. -/
theorem locate_agrees_with_grammar_window :
    let sql := "SELECT rank() OVER (ORDER BY a) FROM t OFFSET 0"
    let plan : Plan := { Plan.blank with
      select := [⟨.window ⟨"rank", [], [⟨.column "a", .ascending⟩]⟩, none⟩], table := "t" }
    parse sql = .ok plan ∧ ∃ extraction lexemes, Hint.extract (body sql.toList) = .ok extraction ∧
      Token.lex extraction.text = .ok lexemes ∧ (∃ parts ends, ClausesAgree plan lexemes parts ends) ∧
      locate lexemes = [⟨.select, 0⟩, ⟨.from_, 32⟩, ⟨.offset, 39⟩] := by
  intro sql plan
  have hlex : Token.lex (body "SELECT rank() OVER (ORDER BY a) FROM t OFFSET 0".toList) = .ok
      [⟨.keyword .select "SELECT", 0, 6, 1⟩, ⟨.identifier "rank", 7, 4, 1⟩, ⟨.symbol .leftParen, 11, 1, 1⟩,
        ⟨.symbol .rightParen, 12, 1, 1⟩, ⟨.keyword .over_ "OVER", 14, 4, 1⟩, ⟨.symbol .leftParen, 19, 1, 1⟩,
        ⟨.keyword .order "ORDER", 20, 5, 1⟩, ⟨.keyword .by_ "BY", 26, 2, 1⟩, ⟨.identifier "a", 29, 1, 1⟩,
        ⟨.symbol .rightParen, 30, 1, 1⟩, ⟨.keyword .from_ "FROM", 32, 4, 1⟩, ⟨.identifier "t", 37, 1, 1⟩,
        ⟨.keyword .offset "OFFSET", 39, 6, 1⟩, ⟨.integer 0, 46, 1, 1⟩] := by cbv
  have hparse : parse sql = .ok plan := (parse_eq_ok hlex (by decide)).mpr (run_eq_ok_iff.mp rfl)
  have hextract := extract_of_no_with hlex (by decide)
  obtain ⟨extraction, lexemes, hextract', hlex', hagree⟩ := locate_agrees_with_grammar hparse
  refine ⟨hparse, extraction, lexemes, hextract', hlex', hagree, ?_⟩
  obtain rfl := Except.ok.inj (hextract.symm.trans hextract')
  obtain rfl := Except.ok.inj (hlex.symm.trans hlex')
  rfl

end JsonTables.Statement
