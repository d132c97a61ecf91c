/-
  JsonTables.Proofs.Statement.Complete — every sentence of the grammar is read, and its plan is made.

  Conditions go over their links as expressions do over their frames. A clause that is read to its end
  may stop there (`Ends`), and the word that opens a later one, or the semicolon, leads on.

  Proved:
  - `readable_condition`: a condition is read wherever its level fits.
  - `steps_select`: a statement is read to its end, and `plan_of_sentence`: its plan is made.
-/

import JsonTables.Proofs.Statement.Expressions

namespace JsonTables.Statement

open Grammar

/-! ## Conditions -/

/-- No `AND` or `OR` of level `n` or more lets go of what waits in the links, and no comparison waits. -/
structure FitsLinks (n : Nat) (links : List Link) : Prop where
  compare : mayCompare links = true
  all : n ≤ 1 → ∀ p, joinAll links p = (links, p)
  ands : n ≤ 2 → ∀ p, joinAnds links p = (links, p)

theorem fitsLinks_nil (n : Nat) : FitsLinks n [] := ⟨rfl, fun _ _ => rfl, fun _ _ => rfl⟩

theorem fitsLinks_group (n : Nat) (links : List Link) : FitsLinks n (.group :: links) :=
  ⟨rfl, fun _ _ => rfl, fun _ _ => rfl⟩

theorem fitsLinks_and (p : Predicate) (links : List Link) : FitsLinks 3 (.and p :: links) :=
  ⟨rfl, fun h => absurd h (by decide), fun h => absurd h (by decide)⟩

theorem fitsLinks_or (p : Predicate) (links : List Link) : FitsLinks 2 (.or p :: links) :=
  ⟨rfl, fun h => absurd h (by decide), fun _ _ => rfl⟩

theorem FitsLinks.mono {m n : Nat} {links : List Link} (h : FitsLinks m links) (hmn : m ≤ n) : FitsLinks n links :=
  ⟨h.compare, fun hn => h.all (Nat.le_trans hmn hn), fun hn => h.ands (Nat.le_trans hmn hn)⟩

theorem conclude_of_mayCompare {links : List Link} (h : mayCompare links = true) (e : Expr) :
    conclude links e = (links, .truth e) := by
  rcases links with _ | ⟨_ | _ | _ | _, links⟩
  case cons.compare => cases h
  all_goals rfl

/-- A condition is complete behind the links, perhaps as an expression that alone makes one. -/
inductive Concluded (plan : Plan) (filter : Filter) : State → List Link → Predicate → Prop
  | predicate (links : List Link) (p : Predicate) : Concluded plan filter ⟨plan, .predicate filter links p⟩ links p
  | value {s : State} (links : List Link) (e : Expr) : Holds 0 s plan (.condition filter links) [] e →
      Concluded plan filter s (conclude links e).1 (conclude links e).2

theorem Concluded.step_and {plan : Plan} {filter : Filter} {s : State} {links : List Link} {p : Predicate}
    (h : Concluded plan filter s links p) (w : String) :
    s.step (.keyword .and w) =
      some ⟨plan, .operand (.condition filter (.and (joinAnds links p).2 :: (joinAnds links p).1)) []⟩ := by
  cases h with
  | predicate => rfl
  | value links e hold =>
    refine hold.step_other rfl rfl ?_
    simp [stepValue, reduce, stepWhole, comparison?, stepPredicate]

theorem Concluded.step_or {plan : Plan} {filter : Filter} {s : State} {links : List Link} {p : Predicate}
    (h : Concluded plan filter s links p) (w : String) :
    s.step (.keyword .or w) =
      some ⟨plan, .operand (.condition filter (.or (joinAll links p).2 :: (joinAll links p).1)) []⟩ := by
  cases h with
  | predicate => rfl
  | value links e hold =>
    refine hold.step_other rfl rfl ?_
    simp [stepValue, reduce, stepWhole, comparison?, stepPredicate]

/-- A parenthesis that was opened as a link closes behind the condition. -/
theorem Concluded.step_close {plan : Plan} {filter : Filter} {s : State} {links outer : List Link}
    {p q : Predicate} (h : Concluded plan filter s links p) (hj : joinAll links p = (.group :: outer, q))
    (hc : mayCompare outer = true) :
    ∃ s', s.step (.symbol .rightParen) = some s' ∧ Concluded plan filter s' outer q := by
  cases h with
  | predicate =>
    refine ⟨_, ?_, .predicate outer q⟩
    refine step_follow rfl ?_
    show (stepPredicate filter links p (.symbol .rightParen)).map (State.mk plan) = _
    simp [stepPredicate, hj]
  | value inner e hold =>
    by_cases hg : ∃ rest, inner = .group :: rest
    · -- The condition is one expression, and the parenthesis belongs to it.
      obtain ⟨rest, rfl⟩ := hg
      obtain ⟨⟨⟩, rfl⟩ : Link.group :: rest = .group :: outer ∧ Predicate.truth e = q := by
        simpa [conclude, joinAll] using hj
      refine ⟨⟨plan, .value (.condition filter outer) [] e⟩,
        hold.step_other rfl rfl rfl, ?_⟩
      have := Concluded.value outer e (holds_value 0 plan (.condition filter outer) [] e)
      rwa [conclude_of_mayCompare hc] at this
    · refine ⟨_, hold.step_other rfl rfl ?_,
        .predicate outer q⟩
      have hclose : closeParen e (.condition filter inner) =
          stepPredicate filter (conclude inner e).1 (conclude inner e).2 (.symbol .rightParen) := by
        rcases inner with _ | ⟨_ | _ | _ | _, rest⟩
        case cons.group => exact absurd ⟨rest, rfl⟩ hg
        all_goals rfl
      simp [stepValue, operator?, reduce, stepWhole, hclose, stepPredicate, hj]

/-- Whatever of level `n` at most follows sees the links with the condition `p` behind them. -/
def HoldsCondition (n : Nat) (s : State) (plan : Plan) (filter : Filter) (links : List Link) (p : Predicate) : Prop :=
  ∃ ls q, Concluded plan filter s ls q ∧ joinAll ls q = joinAll links p ∧
    (2 ≤ n → joinAnds ls q = joinAnds links p)

/-- The condition is read in every place where its level fits. -/
def ReadableCondition (n : Nat) (ts : List Token) (p : Predicate) : Prop :=
  ∀ plan filter links, FitsLinks n links →
    ∃ s, steps ⟨plan, .operand (.condition filter links) []⟩ ts = some s ∧ HoldsCondition n s plan filter links p

theorem Concluded.holdsCondition {plan : Plan} {filter : Filter} {s : State} {links : List Link} {p : Predicate}
    (h : Concluded plan filter s links p) (n : Nat) : HoldsCondition n s plan filter links p :=
  ⟨links, p, h, rfl, fun _ => rfl⟩

theorem readable_truth (n : Nat) {ts : List Token} {e : Expr} (h : Readable 0 ts e) :
    ReadableCondition n ts (.truth e) := by
  intro plan filter links hf
  obtain ⟨s, hs, hold⟩ := h plan (.condition filter links) [] (fits_nil 0)
  have hc := Concluded.value links e hold
  rw [conclude_of_mayCompare hf.compare] at hc
  exact ⟨s, hs, hc.holdsCondition n⟩

theorem readable_compare (n : Nat) {ts us : List Token} {t : Token} {op : Comparison} {a b : Expr}
    (ha : Readable 0 ts a) (ht : ComparisonSign t op) (hb : Readable 0 us b) :
    ReadableCondition n (ts ++ [t] ++ us) (.compare op a b) := by
  intro plan filter links hf
  obtain ⟨s, hs, hold⟩ := ha plan (.condition filter links) [] (fits_nil 0)
  have hstep : s.step t = some ⟨plan, .operand (.condition filter (.compare op a :: links)) []⟩ := by
    refine hold.step_other (by cases ht <;> rfl) (by cases ht <;> rfl) ?_
    cases ht <;> simp [stepValue, operator?, reduce, stepWhole, hf.compare, comparison?]
  obtain ⟨s', hs', hold'⟩ := hb plan (.condition filter (.compare op a :: links)) [] (fits_nil 0)
  exact ⟨s', steps_then (steps_then hs (steps_one hstep)) hs', (Concluded.value _ b hold').holdsCondition n⟩

theorem readable_and {n : Nat} {ts us : List Token} {p q : Predicate} (w : String) (hn : n ≤ 2)
    (hp : ReadableCondition 2 ts p) (hq : ReadableCondition 3 us q) :
    ReadableCondition n (ts ++ [.keyword .and w] ++ us) (.and p q) := by
  intro plan filter links hf
  obtain ⟨s, hs, ls, p', hc, -, hands⟩ := hp plan filter links (hf.mono hn)
  rw [hf.ands hn] at hands
  have hstep := hc.step_and w
  rw [hands (by decide)] at hstep
  obtain ⟨s', hs', ls', q', hc', hall', hands'⟩ := hq plan filter (.and p :: links) (fitsLinks_and p links)
  exact ⟨s', steps_then (steps_then hs (steps_one hstep)) hs', ls', q', hc', hall', fun _ => hands' (by decide)⟩

theorem readable_or {n : Nat} {ts us : List Token} {p q : Predicate} (w : String) (hn : n ≤ 1)
    (hp : ReadableCondition 1 ts p) (hq : ReadableCondition 2 us q) :
    ReadableCondition n (ts ++ [.keyword .or w] ++ us) (.or p q) := by
  intro plan filter links hf
  obtain ⟨s, hs, ls, p', hc, hall, -⟩ := hp plan filter links (hf.mono hn)
  rw [hf.all hn] at hall
  have hstep := hc.step_or w
  rw [hall] at hstep
  obtain ⟨s', hs', ls', q', hc', hall', -⟩ := hq plan filter (.or p :: links) (fitsLinks_or p links)
  exact ⟨s', steps_then (steps_then hs (steps_one hstep)) hs', ls', q', hc', hall',
    fun h => absurd (Nat.le_trans h hn) (by decide)⟩

theorem readable_parenCondition (n : Nat) {ts : List Token} {p : Predicate} (h : ReadableCondition 0 ts p) :
    ReadableCondition n ([.symbol .leftParen] ++ ts ++ [.symbol .rightParen]) p := by
  intro plan filter links hf
  have hopen : State.step ⟨plan, .operand (.condition filter links) []⟩ (.symbol .leftParen) =
      some ⟨plan, .operand (.condition filter (.group :: links)) []⟩ := by
    simp [step_operand, stepOperand, literal?, hf.compare]
  obtain ⟨s, hs, ls, q, hc, hall, -⟩ := h plan filter (.group :: links) (fitsLinks_group 0 links)
  obtain ⟨s', hs', hc'⟩ := hc.step_close hall hf.compare
  exact ⟨s', steps_then (steps_then (steps_one hopen) hs) (steps_one hs'), hc'.holdsCondition n⟩

theorem readable_condition {n : Nat} {ts : List Token} {p : Predicate} (h : Condition n ts p) :
    ReadableCondition n ts p := by
  induction h with
  | truth he => exact readable_truth _ (readable_expression he)
  | compare _ ha ht hb => exact readable_compare _ (readable_expression ha) ht (readable_expression hb)
  | and w hn _ _ ihp ihq => exact readable_and w hn ihp ihq
  | or w hn _ _ ihp ihq => exact readable_or w hn ihp ihq
  | paren _ ih => exact readable_parenCondition _ ih

/-! ## Orders -/

/-- Places for the keys of an order, with commas between them and directions behind them. -/
structure RankPlaces where
  plan : List OrderItem → Plan
  slot : List OrderItem → Slot
  comma : ∀ before e, stepWhole (plan before) (slot before) e (.symbol .comma) =
    some ⟨plan (before ++ [⟨e, .ascending⟩]), .operand (slot (before ++ [⟨e, .ascending⟩])) []⟩
  direct : ∀ before e direction, direct (plan before) e direction (slot before) =
    some ⟨plan (before ++ [⟨e, direction⟩]), .directed (slot (before ++ [⟨e, direction⟩]))⟩

namespace RankPlaces

def wait (p : RankPlaces) (before : List OrderItem) : State := ⟨p.plan before, .operand (p.slot before) []⟩

/-- A key is there with its direction, or as an expression that has none yet. -/
inductive Ready (p : RankPlaces) (before : List OrderItem) : OrderItem → State → Prop
  | bare {e : Expr} {s : State} : Holds 0 s (p.plan before) (p.slot before) [] e →
      Ready p before ⟨e, .ascending⟩ s
  | directed (o : OrderItem) : Ready p before o ⟨p.plan (before ++ [o]), .directed (p.slot (before ++ [o]))⟩

/-- The order inside a window. -/
def window (plan : Plan) (name : String) (partition : List Expr) : RankPlaces where
  plan := fun _ => plan
  slot := fun before => .rank name partition before.reverse
  comma := fun before e => by simp [stepWhole, nextInSlot]
  direct := fun before e direction => by simp [Statement.direct]

/-- `ORDER BY`. -/
def orderBy (plan : Plan) : RankPlaces where
  plan := fun before => { plan with orderBy := before }
  slot := fun _ => .orderBy
  comma := fun before e => by simp [stepWhole, nextInSlot]
  direct := fun before e direction => by simp [Statement.direct]

variable (p : RankPlaces)

theorem step_comma (before : List OrderItem) (o : OrderItem) (s : State) (h : p.Ready before o s) :
    s.step (.symbol .comma) = some (p.wait (before ++ [o])) := by
  cases h with
  | bare hold => exact hold.step_other rfl rfl (p.comma before _)
  | directed => rfl

theorem reads_key {ts : List Token} {o : OrderItem} (h : OrderKey ts o) (before : List OrderItem) :
    ∃ s, steps (p.wait before) ts = some s ∧ p.Ready before o s := by
  cases h with
  | bare he =>
    obtain ⟨s, hs, hold⟩ := readable_expression he (p.plan before) (p.slot before) [] (fits_nil 0)
    exact ⟨s, hs, .bare hold⟩
  | asc w he =>
    obtain ⟨s, hs, hold⟩ := readable_expression he (p.plan before) (p.slot before) [] (fits_nil 0)
    have hstep : s.step (.keyword .asc w) = _ := hold.step_other rfl rfl (p.direct before _ .ascending)
    exact ⟨_, steps_then hs (steps_one hstep), .directed _⟩
  | desc w he =>
    obtain ⟨s, hs, hold⟩ := readable_expression he (p.plan before) (p.slot before) [] (fits_nil 0)
    have hstep : s.step (.keyword .desc w) = _ := hold.step_other rfl rfl (p.direct before _ .descending)
    exact ⟨_, steps_then hs (steps_one hstep), .directed _⟩

theorem reads_keys {ts : List Token} {os : List OrderItem} (h : OrderKeys ts os) :
    ReadsList p.wait p.Ready ts os := by
  induction h with
  | single h => exact .single (p.reads_key h [])
  | more _ h ih => exact .more p.step_comma ih (p.reads_key h _)

end RankPlaces

/-! ## The select list -/

/-- The order of a rank and the closing parenthesis. -/
theorem steps_windowOrder {os : List Token} {order : List OrderItem} (h : OrderKeys os order) {s₀ : State}
    {plan : Plan} {name : String} {partition : List Expr} {w : String} (by_ : String)
    (h₀ : s₀.step (.keyword .order w) = some ⟨plan, .by_ (.rank name partition [])⟩) :
    steps s₀ ([.keyword .order w, .keyword .by_ by_] ++ os ++ [.symbol .rightParen]) =
      some ⟨plan, .ranked ⟨name, partition, order⟩⟩ := by
  obtain ⟨before, o, s, rfl, hs, hr⟩ := (RankPlaces.window plan name partition).reads_keys h
  have hclose : s.step (.symbol .rightParen) = some ⟨plan, .ranked ⟨name, partition, before ++ [o]⟩⟩ := by
    cases hr with
    | bare hold =>
      exact hold.step_other rfl rfl (by simp [stepValue, operator?, reduce, stepWhole, closeParen, RankPlaces.window])
    | directed =>
      show some (State.mk plan (.ranked ⟨name, partition, (before ++ [o]).reverse.reverse⟩)) = _
      rw [List.reverse_reverse]
  have hby : steps s₀ [.keyword .order w, .keyword .by_ by_] = some ((RankPlaces.window plan name partition).wait []) :=
    steps_then (steps_one h₀) rfl
  exact steps_then (steps_then hby hs) (steps_one hclose)

theorem steps_window {ts : List Token} {w : Window} (h : WindowCall ts w) (plan : Plan) :
    steps ⟨plan, .operand .item []⟩ ts = some ⟨plan, .ranked w⟩ := by
  obtain @⟨t, name, ps, os, partition, order, over_, hn, hp, ho⟩ := h
  have hopen : steps ⟨plan, .operand .item []⟩
      [t, .symbol .leftParen, .symbol .rightParen, .keyword .over_ over_, .symbol .leftParen] =
      some ⟨plan, .window name⟩ := by
    exact steps_then (steps_functionName hn plan .item []) rfl
  rw [List.append_assoc, List.append_assoc, steps_trans hopen]
  cases hp with
  | absent =>
    cases ho with
    | absent => rfl
    | present w by_ ho => exact steps_windowOrder ho by_ rfl
  | present w by_ hp =>
    obtain ⟨before, e, s, rfl, hs, hold⟩ := readable_expressions hp (Places.partition plan name)
    have hby : steps ⟨plan, .window name⟩ [.keyword .partition w, .keyword .by_ by_] =
      some ((Places.partition plan name).wait []) := rfl
    rw [steps_trans (steps_then hby hs)]
    cases ho with
    | absent =>
      exact steps_one (hold.step_other rfl rfl
        (by simp [stepValue, operator?, reduce, stepWhole, closeParen, Places.partition]))
    | present w by_ ho =>
      exact steps_windowOrder ho by_
        (hold.step_other rfl rfl (by simp [stepValue, reduce, stepWhole, Places.partition]))

/-- Places for select items. -/
def waitItem (plan : Plan) (before : List SelectItem) : State :=
  ⟨{ plan with select := before }, .operand .item []⟩

/-- The item is complete behind those before it: another one may follow, or the table. -/
structure ReadyItem (plan : Plan) (before : List SelectItem) (i : SelectItem) (s : State) : Prop where
  comma : s.step (.symbol .comma) = some (waitItem plan (before ++ [i]))
  from_ : ∀ w, s.step (.keyword .from_ w) = some ⟨{ plan with select := before ++ [i] }, .path .table⟩

theorem reads_content {ts : List Token} {c : Selected} (h : ItemContent ts c) (plan : Plan)
    (before : List SelectItem) :
    ∃ s, steps (waitItem plan before) ts = some s ∧ ReadyItem plan before ⟨c, none⟩ s ∧
      ∀ w, s.step (.keyword .as_ w) = some ⟨{ plan with select := before }, .label c⟩ := by
  cases h with
  | expr h =>
    obtain ⟨s, hs, hold⟩ := readable_expression h { plan with select := before } .item [] (fits_nil 0)
    exact ⟨s, hs, ⟨hold.step_other rfl rfl rfl, fun w => hold.step_other rfl rfl rfl⟩,
      fun w => hold.step_other rfl rfl rfl⟩
  | window h => exact ⟨_, steps_window h _, ⟨rfl, fun w => rfl⟩, fun w => rfl⟩

theorem reads_item {ts : List Token} {i : SelectItem} (h : Item ts i) (plan : Plan) (before : List SelectItem) :
    ∃ s, steps (waitItem plan before) ts = some s ∧ ReadyItem plan before i s := by
  cases h with
  | star => exact ⟨_, rfl, rfl, fun w => rfl⟩
  | bare h =>
    obtain ⟨s, hs, hr, _⟩ := reads_content h plan before
    exact ⟨s, hs, hr⟩
  | labelled w h hl =>
    obtain ⟨s, hs, _, has⟩ := reads_content h plan before
    rw [steps_trans hs, steps_cons, has w]
    cases hl <;> exact ⟨_, rfl, rfl, fun w => rfl⟩

theorem reads_items {ts : List Token} {is : List SelectItem} (h : Items ts is) (plan : Plan) :
    ReadsList (waitItem plan) (ReadyItem plan) ts is := by
  induction h with
  | single h => exact .single (reads_item h plan [])
  | more _ h ih => exact .more (fun _ _ _ hr => hr.comma) ih (reads_item h plan _)

/-! ## Tables -/

theorem steps_path {ts : List Token} {name : String} (h : Column ts name) (plan : Plan) (target : Target) :
    steps ⟨plan, .path target⟩ ts = some ⟨plan, .pathName target name⟩ := by
  induction h with
  | single name => rfl
  | dotted part _ ih =>
    rw [steps_trans ih]
    cases target <;> rfl

theorem steps_table {ts : List Token} {name : String} (h : TablePath ts name) (plan : Plan) :
    ∃ s, steps ⟨plan, .path .table⟩ ts = some s ∧ s.settled = ⟨{ plan with table := name }, .tables⟩ := by
  cases h with
  | column h => exact ⟨_, steps_path h plan .table, rfl⟩
  | text s => exact ⟨_, rfl, rfl⟩

theorem steps_joinWords {ks : List Token} {kind : JoinKind} (h : JoinWords ks kind) (w : String) {s : State}
    {plan : Plan} (hs : s.settled = ⟨plan, .tables⟩) :
    steps s (ks ++ [.keyword .join w]) = some ⟨plan, .path (.joined kind)⟩ := by
  have hword {t : Token} {mode : Mode} (us : List Token) (hx : lengthens t = false)
      (ht : stepTables t = some mode) : steps s (t :: us) = steps ⟨plan, mode⟩ us := by
    have hf : s.settled.follow t = some ⟨plan, mode⟩ := by
      rw [hs]
      show (stepTables t).map (State.mk plan) = _
      rw [ht]
      rfl
    rw [steps_cons, step_follow hx hf]
    rfl
  cases h <;> exact (hword _ rfl rfl).trans rfl

theorem steps_join {ts : List Token} {j : Join} (h : JoinClause ts j) {s : State} {plan : Plan}
    (hs : s.settled = ⟨plan, .tables⟩) :
    ∃ s', steps s ts = some s' ∧ s'.settled = ⟨addJoin plan j, .tables⟩ := by
  obtain @⟨ks, ps, ls, rs, kind, table, left, right, w, on_, hk, hp, hl, hr⟩ := h
  have htable : ∃ s₁, steps ⟨plan, .path (.joined kind)⟩ ps = some s₁ ∧
      s₁.step (.keyword .on_ on_) = some ⟨plan, .path (.leftKey kind table)⟩ := by
    cases hp with
    | column h => exact ⟨_, steps_path h plan (.joined kind), rfl⟩
    | text s => exact ⟨_, rfl, rfl⟩
  obtain ⟨s₁, hs₁, hon⟩ := htable
  have hkeys := steps_then (steps_then (steps_then (steps_joinWords hk w hs) hs₁) (steps_one hon))
    (steps_path hl plan (.leftKey kind table))
  exact ⟨⟨plan, .pathName (.rightKey kind table left) right⟩,
    steps_then (steps_then hkeys (steps_one rfl)) (steps_path hr plan _), rfl⟩

theorem steps_joins {ts : List Token} {js : List Join} (h : Joins ts js) {s : State} {plan : Plan}
    (hs : s.settled = ⟨plan, .tables⟩) :
    ∃ s', steps s ts = some s' ∧ s'.settled = ⟨{ plan with joins := plan.joins ++ js }, .tables⟩ := by
  induction h with
  | none => exact ⟨s, rfl, by simp [hs]⟩
  | more _ hj ih =>
    obtain ⟨s₁, hs₁, hset⟩ := ih
    obtain ⟨s₂, hs₂, hset₂⟩ := steps_join hj hset
    exact ⟨s₂, steps_then hs₁ hs₂, by simp [hset₂, addJoin]⟩

/-! ## The ends of clauses -/

/-- A clause of rank `r` at most may end in `s`, and `plan` is then known. -/
def Ends (r : Nat) (s : State) (plan : Plan) : Prop := ∃ c, s.settled.close? = some (plan, c) ∧ rank c ≤ r

theorem Ends.mono {r k : Nat} {s : State} {plan : Plan} (h : Ends r s plan) (hrk : r ≤ k) : Ends k s plan := by
  obtain ⟨c, hc, hr⟩ := h
  exact ⟨c, hc, Nat.le_trans hr hrk⟩

/-- The tokens that can only stand behind the end of a clause. -/
inductive Ending : Token → Prop
  | semicolon : Ending (.symbol .semicolon)
  | where_ (w : String) : Ending (.keyword .where_ w)
  | group (w : String) : Ending (.keyword .group w)
  | having (w : String) : Ending (.keyword .having w)
  | order (w : String) : Ending (.keyword .order w)
  | limit (w : String) : Ending (.keyword .limit w)
  | offset (w : String) : Ending (.keyword .offset w)

theorem ending_of_opening {t : Token} {r : Clause × Mode} (h : opening? t = some r) : Ending t := by
  unfold opening? at h
  split at h
  case h_7 => cases h
  all_goals constructor

theorem stepWhole_eq_none {plan : Plan} {slot : Slot} {e : Expr} {t : Token} {r : Plan × Clause}
    (hc : closeSlot plan e slot = some r) (ht : Ending t) : stepWhole plan slot e t = none := by
  have hcond (filter : Filter) (links : List Link) : stepWhole plan (.condition filter links) e t = none := by
    cases ht <;> simp [stepWhole, comparison?, stepPredicate]
  cases slot with
  | condition filter links => exact hcond filter links
  | groupBy => cases ht <;> rfl
  | orderBy => cases ht <;> rfl
  | _ => cases hc

theorem follow_eq_none {s : State} {t : Token} {r : Plan × Clause} (hc : s.close? = some r)
    (ht : Ending t) : s.follow t = none := by
  obtain ⟨plan, mode⟩ := s
  cases mode with
  | value slot frames e =>
    simp only [State.close?] at hc
    have ho : operatorOf? t = none := by
      cases ht <;> rfl
    split at hc
    · rename_i x hr
      have hv : stepValue plan slot frames e t = stepValue plan slot [] x t :=
        stepValue_congr (fun m hm => by rw [Nat.le_zero.mp hm, hr]; rfl) (by simp [ho])
      show stepValue plan slot frames e t = none
      rw [hv]
      have hw := stepWhole_eq_none hc ht
      cases ht <;> exact hw
    · cases hc
  | predicate filter links p => cases ht <;> rfl
  | directed slot => cases ht <;> rfl
  | tables => cases ht <;> rfl
  | counted clause => cases ht <;> rfl
  | _ => cases hc

theorem step_advance {s : State} {t : Token} {r : Nat} {plan : Plan} (h : Ends r s plan) (ht : Ending t) :
    s.step t = s.settled.advance t := by
  obtain ⟨c, hc, _⟩ := h
  have hx : lengthens t = false := by
    cases ht <;> rfl
  rw [step_of_extend_none (extend_eq_none hx), follow_eq_none hc ht, Option.none_or]

theorem step_opening {s : State} {t : Token} {r : Nat} {plan : Plan} {next : Clause} {mode : Mode}
    (h : Ends r s plan) (ho : opening? t = some (next, mode)) (hr : r < rank next) :
    s.step t = some ⟨plan, mode⟩ := by
  obtain ⟨c, hc, hrc⟩ := id h
  have hne : t ≠ .symbol .semicolon := by
    intro he
    subst he
    cases ho
  have hlt : rank c < rank next := Nat.lt_of_le_of_lt hrc hr
  simp [step_advance h (ending_of_opening ho), State.advance, hc, hne, ho, hlt]

theorem step_semicolon {s : State} {r : Nat} {plan : Plan} (h : Ends r s plan) :
    s.step (.symbol .semicolon) = some ⟨plan, .finished⟩ := by
  obtain ⟨c, hc, _⟩ := id h
  simp [step_advance h .semicolon, State.advance, hc]

theorem plan?_of_ends {s : State} {r : Nat} {plan : Plan} (h : Ends r s plan) : s.plan? = some plan := by
  obtain ⟨c, hc, _⟩ := h
  unfold State.plan?
  split
  · rename_i hm
    rw [State.settled, hm] at hc
    simp [State.close?, hm] at hc
  · simp [hc]

/-! ## Clauses -/

theorem ends_condition {s : State} {plan : Plan} {filter : Filter} {p : Predicate}
    (h : HoldsCondition 0 s plan filter [] p) : Ends (rank filter.clause) s (setFilter plan p filter) := by
  obtain ⟨ls, q, hc, hall, -⟩ := h
  refine ⟨filter.clause, ?_, Nat.le_refl _⟩
  cases hc with
  | predicate =>
    simp [State.settled, State.close?, closeFilter, hall, joinAll]
  | value links e hold =>
    obtain ⟨fs, x, hs, hr⟩ := hold
    have h0 : reduce 0 fs x = ([], e) := hr 0 (Nat.le_refl 0)
    simp [hs, State.close?, h0, closeSlot, closeFilter, hall, joinAll]

theorem Holds.ends {s : State} {plan plan' : Plan} {slot : Slot} {e : Expr} {c : Clause}
    (h : Holds 0 s plan slot [] e) (hc : closeSlot plan e slot = some (plan', c)) : Ends (rank c) s plan' := by
  obtain ⟨fs, x, hs, hr⟩ := h
  have h0 : reduce 0 fs x = ([], e) := hr 0 (Nat.le_refl 0)
  exact ⟨c, by simp [hs, State.close?, h0, hc], Nat.le_refl _⟩

theorem steps_where {ts : List Token} {p : Option Predicate} (h : ConditionClause .where_ ts p) {s : State}
    {plan : Plan} (hs : Ends 1 s plan) (hb : plan.where_ = none) :
    ∃ s', steps s ts = some s' ∧ Ends 2 s' { plan with where_ := p } := by
  cases h with
  | absent => exact ⟨s, rfl, by rw [← hb]; exact hs.mono (by decide)⟩
  | present w h =>
    obtain ⟨s', hs', hold⟩ := readable_condition h plan .where_ [] (fitsLinks_nil 0)
    exact ⟨s', steps_then (steps_one (step_opening hs rfl (by decide))) hs', ends_condition hold⟩

theorem steps_having {ts : List Token} {p : Option Predicate} (h : ConditionClause .having ts p) {s : State}
    {plan : Plan} (hs : Ends 3 s plan) (hb : plan.having = none) :
    ∃ s', steps s ts = some s' ∧ Ends 4 s' { plan with having := p } := by
  cases h with
  | absent => exact ⟨s, rfl, by rw [← hb]; exact hs.mono (by decide)⟩
  | present w h =>
    obtain ⟨s', hs', hold⟩ := readable_condition h plan .having [] (fitsLinks_nil 0)
    exact ⟨s', steps_then (steps_one (step_opening hs rfl (by decide))) hs', ends_condition hold⟩

theorem steps_groupBy {ts : List Token} {es : List Expr} (h : ListClause .group ts es) {s : State} {plan : Plan}
    (hs : Ends 2 s plan) (hb : plan.groupBy = []) :
    ∃ s', steps s ts = some s' ∧ Ends 3 s' { plan with groupBy := es } := by
  cases h with
  | absent => exact ⟨s, rfl, by rw [← hb]; exact hs.mono (by decide)⟩
  | present w by_ h =>
    obtain ⟨before, e, s', rfl, hs', hold⟩ := readable_expressions h (Places.groupBy plan)
    have hby : steps ⟨plan, .by_ .groupBy⟩ [.keyword .by_ by_] = some ((Places.groupBy plan).wait []) := by
      rw [Places.wait, Places.groupBy, ← hb]
      rfl
    exact ⟨s', steps_then (steps_then (steps_one (step_opening hs rfl (by decide))) hby) hs', Holds.ends hold rfl⟩

theorem steps_orderBy {ts : List Token} {os : List OrderItem} (h : OrderClause ts os) {s : State} {plan : Plan}
    (hs : Ends 4 s plan) (hb : plan.orderBy = []) :
    ∃ s', steps s ts = some s' ∧ Ends 5 s' { plan with orderBy := os } := by
  cases h with
  | absent => exact ⟨s, rfl, by rw [← hb]; exact hs.mono (by decide)⟩
  | present w by_ h =>
    obtain ⟨before, o, s', rfl, hs', hr⟩ := (RankPlaces.orderBy plan).reads_keys h
    have hby : steps ⟨plan, .by_ .orderBy⟩ [.keyword .by_ by_] = some ((RankPlaces.orderBy plan).wait []) := by
      rw [RankPlaces.wait, RankPlaces.orderBy, ← hb]
      rfl
    refine ⟨s', steps_then (steps_then (steps_one (step_opening hs rfl (by decide))) hby) hs', ?_⟩
    · cases hr with
      | bare hold => exact Holds.ends hold rfl
      | directed => exact ⟨.orderBy, rfl, Nat.le_refl _⟩

theorem steps_limit {ts : List Token} {n : Option Nat} (h : LimitClause ts n) {s : State} {plan : Plan}
    (hs : Ends 5 s plan) (hb : plan.limit = none) :
    ∃ s', steps s ts = some s' ∧ Ends 6 s' { plan with limit := n } := by
  cases h with
  | absent => exact ⟨s, rfl, by rw [← hb]; exact hs.mono (by decide)⟩
  | present w n =>
    exact ⟨_, steps_then (steps_one (step_opening hs rfl (by decide))) (steps_one rfl), .limit, rfl, Nat.le_refl _⟩

theorem steps_offset {ts : List Token} {n : Nat} (h : OffsetClause ts n) {s : State} {plan : Plan}
    (hs : Ends 6 s plan) (hb : plan.offset = 0) :
    ∃ s', steps s ts = some s' ∧ Ends 7 s' { plan with offset := n } := by
  cases h with
  | absent => exact ⟨s, rfl, by rw [← hb]; exact hs.mono (by decide)⟩
  | present w n =>
    exact ⟨_, steps_then (steps_one (step_opening hs rfl (by decide))) (steps_one rfl), .offset, rfl, Nat.le_refl _⟩

/-! ## Statements -/

theorem ReadyItem.ne_nil {plan : Plan} {before before' : List SelectItem} {i : SelectItem} {s : State}
    {ts : List Token} (h : ReadyItem plan before i s) (hs : steps (waitItem plan before') ts = some s) : ts ≠ [] := by
  intro he
  subst he
  cases hs
  cases h.comma

/-- Behind `SELECT`, what is not `DISTINCT` starts the first item. -/
theorem steps_selecting {plan : Plan} {ts : List Token} {s : State} (hne : ts ≠ [])
    (h : steps ⟨plan, .operand .item []⟩ ts = some s) : steps ⟨plan, .selecting⟩ ts = some s := by
  obtain ⟨t, ts, rfl⟩ := List.exists_cons_of_ne_nil hne
  rw [steps_cons, step_operand] at h
  obtain ⟨s₁, h₁, h₂⟩ := Option.bind_eq_some_iff.mp h
  have hf : State.follow ⟨plan, .selecting⟩ t = some s₁ := by
    cases t with
    | keyword k w => cases k <;> first | exact h₁ | cases h₁
    | _ => exact h₁
  have hx : State.extend ⟨plan, .selecting⟩ t = none := by
    cases t <;> rfl
  have hstep : State.step ⟨plan, .selecting⟩ t = some s₁ := by
    rw [step_of_extend_none hx]
    show (State.follow ⟨plan, .selecting⟩ t).or _ = some s₁
    rw [hf, Option.some_or]
  rw [steps_cons, hstep]
  exact h₂

theorem steps_distinct {ds : List Token} {distinct : Bool} (h : DistinctWord ds distinct) (w : String)
    {is : List Token} {s : State} (hne : is ≠ [])
    (hs : steps ⟨{ Plan.blank with distinct := distinct }, .operand .item []⟩ is = some s) :
    steps State.start ([.keyword .select w] ++ ds ++ is) = some s := by
  cases h with
  | present => exact hs
  | absent => exact steps_selecting hne hs

theorem steps_select {ts : List Token} {plan : Plan} (h : Select ts plan) :
    ∃ s, steps State.start ts = some s ∧ Ends 7 s plan := by
  obtain @⟨ds, is, ps, js, ws, gs, hs, os, ls, fs, distinct, items, table, joins, where_, having, groupBy, orderBy,
    limit, offset, w, from_, hd, hi, hp, hj, hw, hg, hh, ho, hl, hf⟩ := h
  obtain ⟨before, i, s₁, rfl, h₁, hr⟩ := reads_items hi { Plan.blank with distinct := distinct }
  obtain ⟨s₂, h₂, ht⟩ := steps_table hp { Plan.blank with distinct := distinct, select := before ++ [i] }
  obtain ⟨s₃, h₃, ht⟩ := steps_joins hj ht
  obtain ⟨s₄, h₄, hend⟩ := steps_where hw ⟨.from_, by rw [ht]; rfl, Nat.le_refl _⟩ rfl
  obtain ⟨s₅, h₅, hend⟩ := steps_groupBy hg hend rfl
  obtain ⟨s₆, h₆, hend⟩ := steps_having hh hend rfl
  obtain ⟨s₇, h₇, hend⟩ := steps_orderBy ho hend rfl
  obtain ⟨s₈, h₈, hend⟩ := steps_limit hl hend rfl
  obtain ⟨s₉, h₉, hend⟩ := steps_offset hf hend rfl
  have hitems := steps_then (steps_distinct hd w (hr.ne_nil h₁) h₁) (steps_one (hr.from_ from_))
  have htables := steps_then (steps_then hitems h₂) h₃
  have hfilters := steps_then (steps_then (steps_then htables h₄) h₅) h₆
  exact ⟨s₉, steps_then (steps_then (steps_then hfilters h₇) h₈) h₉, hend⟩

theorem plan_of_sentence {ts : List Token} {plan : Plan} (h : Sentence ts plan) :
    ∃ s, steps State.start ts = some s ∧ s.plan? = some plan := by
  cases h with
  | bare h =>
    obtain ⟨s, hs, hend⟩ := steps_select h
    exact ⟨s, hs, plan?_of_ends hend⟩
  | closed h =>
    obtain ⟨s, hs, hend⟩ := steps_select h
    exact ⟨_, steps_then hs (steps_one (step_semicolon hend)), rfl⟩

end JsonTables.Statement
