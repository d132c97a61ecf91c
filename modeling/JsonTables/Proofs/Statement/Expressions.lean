/-
  JsonTables.Proofs.Statement.Expressions — the expressions of the grammar are read, in every place.

  An expression of level `n` is read behind frames that no operator of level `n` or more lets go. What
  then stands on the frames is not yet the expression itself: its last operators still wait, since a
  tighter one may follow. `Holds n` says that all that may follow at level `n` sees the expression.

  Proved:
  - `readable_expression`: an expression is read wherever its level fits.
  - `readable_expressions`: and a list of them wherever commas lead from one place to the next.
-/

import JsonTables.Proofs.Grammar
import JsonTables.Statement.Step

namespace JsonTables.Statement

open Grammar

/-! ## Runs of steps -/

/-- The state after some tokens. -/
def steps (s : State) (ts : List Token) : Option State := ts.foldlM State.step s

@[simp] theorem steps_nil (s : State) : steps s [] = some s := rfl

@[simp] theorem steps_cons (s : State) (t : Token) (ts : List Token) :
    steps s (t :: ts) = (s.step t).bind (steps · ts) := rfl

theorem steps_append (s : State) (ts us : List Token) :
    steps s (ts ++ us) = (steps s ts).bind (steps · us) := by
  simp only [steps, List.foldlM_append]
  rfl

theorem steps_trans {s s' : State} {ts us : List Token} (h : steps s ts = some s') :
    steps s (ts ++ us) = steps s' us := by
  rw [steps_append, h]
  rfl

theorem steps_one {s s' : State} {t : Token} (h : s.step t = some s') : steps s [t] = some s' := by
  simp [h]

theorem steps_then {s s' s'' : State} {ts us : List Token} (h : steps s ts = some s') (h' : steps s' us = some s'') :
    steps s (ts ++ us) = some s'' := (steps_trans h).trans h'

/-! ## What may follow a name -/

/-- The tokens that make a name longer, or a function of it. -/
def lengthens : Token → Bool
  | .symbol .dot | .symbol .leftParen | .keyword .over_ _ => true
  | _ => false

theorem extend_eq_none {s : State} {t : Token} (h : lengthens t = false) : s.extend t = none := by
  unfold State.extend
  split
  iterate 4 cases h
  rfl

theorem step_of_extend_none {s : State} {t : Token} (h : s.extend t = none) :
    s.step t = (s.settled.follow t).or (s.settled.advance t) := by
  unfold State.step
  rw [h]
  cases s.settled.follow t <;> rfl

theorem step_follow {s s' : State} {t : Token} (hx : lengthens t = false) (h : s.settled.follow t = some s') :
    s.step t = some s' := by
  rw [step_of_extend_none (extend_eq_none hx), h, Option.some_or]

/-! ## Expressions -/

/-- No operator of level `n` or more lets go of what waits in the frames. -/
def Fits (n : Nat) (frames : List Frame) : Prop :=
  ∀ m, n ≤ m → m ≤ 2 → ∀ e, reduce m frames e = (frames, e)

theorem fits_nil (n : Nat) : Fits n [] := fun _ _ _ _ => rfl

theorem fits_group (n : Nat) (frames : List Frame) : Fits n (.group :: frames) := fun _ _ _ _ => rfl

theorem fits_argument (n : Nat) (name : String) (before : List Expr) (frames : List Frame) :
    Fits n (.argument name before :: frames) := fun _ _ _ _ => rfl

theorem fits_three (frames : List Frame) : Fits 3 frames := fun _ h h' => absurd (Nat.le_trans h h') (by decide)

theorem Fits.mono {m n : Nat} {frames : List Frame} (h : Fits m frames) (hmn : m ≤ n) : Fits n frames :=
  fun k hk => h k (Nat.le_trans hmn hk)

theorem fits_binary (op : Operator) (left : Expr) (frames : List Frame) :
    Fits (level op + 1) (.binary op left :: frames) := by
  intro m hm _ e
  have : ¬m ≤ level op := by omega
  simp [reduce, this]

theorem level_le (op : Operator) : level op ≤ 2 := by
  cases op <;> decide

/-- Whatever of level `n` at most follows sees the frames with the operand `e` on them. -/
def Holds (n : Nat) (s : State) (plan : Plan) (slot : Slot) (frames : List Frame) (e : Expr) : Prop :=
  ∃ fs x, s.settled = ⟨plan, .value slot fs x⟩ ∧ ∀ m ≤ n, reduce m fs x = reduce m frames e

theorem holds_value (n : Nat) (plan : Plan) (slot : Slot) (frames : List Frame) (e : Expr) :
    Holds n ⟨plan, .value slot frames e⟩ plan slot frames e := ⟨frames, e, rfl, fun _ _ => rfl⟩

/-- The arithmetic operator that a token is. -/
def operatorOf? : Token → Option Operator
  | .symbol s => operator? s
  | _ => none

theorem stepValue_operator {plan : Plan} {slot : Slot} {frames : List Frame} {e : Expr} {t : Token} {op : Operator}
    (h : operatorOf? t = some op) :
    stepValue plan slot frames e t =
      some ⟨plan, .operand slot (.binary op (reduce (level op) frames e).2 :: (reduce (level op) frames e).1)⟩ := by
  cases t with
  | symbol s =>
    simp only [operatorOf?] at h
    simp only [stepValue, h]
  | _ => cases h

/-- The token behind an operand, if it is no operator, once the frames have let go what they can. -/
def stepOther (plan : Plan) (slot : Slot) : List Frame × Expr → Token → Option State
  | ([], e), t => stepWhole plan slot e t
  | (.group :: frames, e), .symbol .rightParen => some ⟨plan, .value slot frames e⟩
  | (.argument name before :: frames, e), .symbol .rightParen =>
    some ⟨plan, .value slot frames (.call name (e :: before).reverse)⟩
  | (.argument name before :: frames, e), .symbol .comma =>
    some ⟨plan, .operand slot (.argument name (e :: before) :: frames)⟩
  | _, _ => none

theorem stepValue_other {plan : Plan} {slot : Slot} {frames : List Frame} {e : Expr} {t : Token}
    (h : operatorOf? t = none) : stepValue plan slot frames e t = stepOther plan slot (reduce 0 frames e) t := by
  cases t with
  | symbol s =>
    simp only [operatorOf?] at h
    simp only [stepValue, h]
    rfl
  | _ => rfl

theorem stepValue_congr {n : Nat} {plan : Plan} {slot : Slot} {fs frames : List Frame} {x e : Expr} {t : Token}
    (h : ∀ m ≤ n, reduce m fs x = reduce m frames e) (ht : ∀ op ∈ operatorOf? t, level op ≤ n) :
    stepValue plan slot fs x t = stepValue plan slot frames e t := by
  cases hop : operatorOf? t with
  | some op => rw [stepValue_operator hop, stepValue_operator hop, h (level op) (ht op hop)]
  | none => rw [stepValue_other hop, stepValue_other hop, h 0 (Nat.zero_le n)]

theorem Holds.step {n : Nat} {s s' : State} {plan : Plan} {slot : Slot} {frames : List Frame} {e : Expr}
    {t : Token} (h : Holds n s plan slot frames e) (hx : lengthens t = false)
    (ht : ∀ op ∈ operatorOf? t, level op ≤ n) (hv : stepValue plan slot frames e t = some s') :
    s.step t = some s' := by
  obtain ⟨fs, x, hs, hr⟩ := h
  refine step_follow hx ?_
  rw [hs]
  exact (stepValue_congr hr ht).trans hv

theorem Holds.step_other {n : Nat} {s s' : State} {plan : Plan} {slot : Slot} {frames : List Frame} {e : Expr}
    {t : Token} (h : Holds n s plan slot frames e) (hx : lengthens t = false) (ho : operatorOf? t = none)
    (hv : stepValue plan slot frames e t = some s') : s.step t = some s' :=
  h.step hx (by simp [ho]) hv

/-- The expression is read in every place where its level fits. -/
def Readable (n : Nat) (ts : List Token) (e : Expr) : Prop :=
  ∀ plan slot frames, Fits n frames →
    ∃ s, steps ⟨plan, .operand slot frames⟩ ts = some s ∧ Holds n s plan slot frames e

theorem step_operand (plan : Plan) (slot : Slot) (frames : List Frame) (t : Token) :
    State.step ⟨plan, .operand slot frames⟩ t = (stepOperand slot frames t).map (⟨plan, ·⟩) := by
  rw [step_of_extend_none rfl]
  show ((stepOperand slot frames t).map (State.mk plan)).or none = _
  rw [Option.or_none]

theorem readable_literal (n : Nat) {t : Token} {l : Literal} (h : literal? t = some l) :
    Readable n [t] (.literal l) := by
  intro plan slot frames _
  refine ⟨⟨plan, .value slot frames (.literal l)⟩, ?_, holds_value ..⟩
  simp [step_operand, stepOperand, h]

theorem steps_column {ts : List Token} {name : String} (h : Column ts name) (plan : Plan) (slot : Slot)
    (frames : List Frame) :
    ∃ bare, steps ⟨plan, .operand slot frames⟩ ts = some ⟨plan, .name slot frames name bare⟩ := by
  induction h with
  | single name => exact ⟨true, rfl⟩
  | dotted part _ ih =>
    obtain ⟨bare, h⟩ := ih
    exact ⟨false, steps_then h rfl⟩

theorem readable_column (n : Nat) {ts : List Token} {name : String} (h : Column ts name) :
    Readable n ts (.column name) := by
  intro plan slot frames _
  obtain ⟨bare, hs⟩ := steps_column h plan slot frames
  exact ⟨_, hs, frames, .column name, rfl, fun _ _ => rfl⟩

theorem steps_functionName {t : Token} {name : String} (h : FunctionName t name) (plan : Plan) (slot : Slot)
    (frames : List Frame) :
    steps ⟨plan, .operand slot frames⟩ [t, .symbol .leftParen] = some ⟨plan, .arguments slot frames name⟩ := by
  cases h <;> rfl

theorem readable_callEmpty (n : Nat) {t : Token} {name : String} (h : FunctionName t name) :
    Readable n [t, .symbol .leftParen, .symbol .rightParen] (.call name []) := by
  intro plan slot frames _
  rw [show [t, .symbol .leftParen, .symbol .rightParen] = [t, .symbol .leftParen] ++ [.symbol .rightParen] from rfl,
    steps_trans (steps_functionName h plan slot frames)]
  -- At the start of a select item the call may become a rank.
  rcases slot with _ | _ | _ | _ | _ | _
  · rcases frames with _ | ⟨f, frames⟩
    · exact ⟨_, rfl, [], .call name [], rfl, fun _ _ => rfl⟩
    · exact ⟨_, rfl, holds_value ..⟩
  all_goals exact ⟨_, rfl, holds_value ..⟩

theorem readable_callStar (n : Nat) {t : Token} {name : String} (h : FunctionName t name) :
    Readable n [t, .symbol .leftParen, .symbol .star, .symbol .rightParen] (.callStar name) := by
  intro plan slot frames _
  rw [show [t, .symbol .leftParen, .symbol .star, .symbol .rightParen] =
      [t, .symbol .leftParen] ++ [.symbol .star, .symbol .rightParen] from rfl,
    steps_trans (steps_functionName h plan slot frames)]
  exact ⟨_, rfl, holds_value ..⟩

theorem readable_minus {n : Nat} {ts : List Token} {e : Expr} (hn : n ≤ 3) (h : Readable 3 ts e) :
    Readable n ([.symbol .minus] ++ ts) (negated e) := by
  intro plan slot frames _
  obtain ⟨s, hs, fs, x, hx, hr⟩ := h plan slot (.negate :: frames) (fits_three _)
  refine ⟨s, hs, fs, x, hx, fun m hm => ?_⟩
  rw [hr m (Nat.le_trans hm hn)]
  rfl

theorem negated_eq {e : Expr} (h : ∀ x, e ≠ .literal (.number x)) : negated e = .negate e := by
  unfold negated
  split
  · exact absurd rfl (h _)
  · rfl

theorem readable_binary {n : Nat} {ts us : List Token} {a b : Expr} (op : Operator) (hn : n ≤ level op)
    (ha : Readable (level op) ts a) (hb : Readable (level op + 1) us b) :
    Readable n (ts ++ [.symbol (symbolOf op)] ++ us) (.binary op a b) := by
  intro plan slot frames hf
  obtain ⟨s, hs, hold⟩ := ha plan slot frames (hf.mono hn)
  have hop : operatorOf? (.symbol (symbolOf op)) = some op := by
    cases op <;> rfl
  have hstep : s.step (.symbol (symbolOf op)) = some ⟨plan, .operand slot (.binary op a :: frames)⟩ := by
    refine hold.step (by cases op <;> rfl) (by simp [hop]) ?_
    rw [stepValue_operator hop, hf (level op) hn (level_le op)]
  obtain ⟨s', hs', fs, x, hx, hr⟩ := hb plan slot (.binary op a :: frames) (fits_binary op a frames)
  refine ⟨s', steps_then (steps_then hs (steps_one hstep)) hs', fs, x, hx, fun m hm => ?_⟩
  have hm' : m ≤ level op := Nat.le_trans hm hn
  rw [hr m (by omega)]
  simp [reduce, hm']

theorem readable_paren (n : Nat) {ts : List Token} {e : Expr} (h : Readable 0 ts e) :
    Readable n ([.symbol .leftParen] ++ ts ++ [.symbol .rightParen]) e := by
  intro plan slot frames _
  -- In a condition the parenthesis may turn out to hold a condition, and so it is a link there.
  have hopen : ∃ slot' frames', Fits 0 frames' ∧
      State.step ⟨plan, .operand slot frames⟩ (.symbol .leftParen) = some ⟨plan, .operand slot' frames'⟩ ∧
      stepValue plan slot' frames' e (.symbol .rightParen) = some ⟨plan, .value slot frames e⟩ := by
    rcases slot with _ | _ | _ | _ | _ | ⟨filter, links⟩
    case condition =>
      rcases frames with _ | ⟨f, frames⟩
      · by_cases hc : mayCompare links = true
        · refine ⟨.condition filter (.group :: links), [], fits_nil 0, ?_, rfl⟩
          rw [step_operand]
          simp [stepOperand, literal?, hc]
        · refine ⟨.condition filter links, [.group], fits_group 0 [], ?_, rfl⟩
          rw [step_operand]
          simp [stepOperand, literal?, hc]
      · exact ⟨_, .group :: f :: frames, fits_group 0 _, rfl, rfl⟩
    all_goals exact ⟨_, .group :: frames, fits_group 0 frames, rfl, rfl⟩
  obtain ⟨slot', frames', hf, hstep, hclose⟩ := hopen
  obtain ⟨s, hs, hold⟩ := h plan slot' frames' hf
  exact ⟨⟨plan, .value slot frames e⟩,
    steps_then (steps_then (steps_one hstep) hs) (steps_one (hold.step_other rfl rfl hclose)), holds_value ..⟩

/-! ## Lists -/

/-- From `wait []` on, `ts` make a list: its last member stands ready behind the members before it. -/
def ReadsList {α : Type} (wait : List α → State) (ready : List α → α → State → Prop) (ts : List Token)
    (as : List α) : Prop :=
  ∃ before a s, as = before ++ [a] ∧ steps (wait []) ts = some s ∧ ready before a s

theorem ReadsList.single {α : Type} {wait : List α → State} {ready : List α → α → State → Prop} {ts : List Token}
    {a : α} (h : ∃ s, steps (wait []) ts = some s ∧ ready [] a s) : ReadsList wait ready ts [a] := by
  obtain ⟨s, hs, hr⟩ := h
  exact ⟨[], a, s, rfl, hs, hr⟩

theorem ReadsList.more {α : Type} {wait : List α → State} {ready : List α → α → State → Prop}
    {ts us : List Token} {as : List α} {a : α}
    (hc : ∀ before a s, ready before a s → s.step (.symbol .comma) = some (wait (before ++ [a])))
    (hl : ReadsList wait ready ts as) (h : ∃ s, steps (wait as) us = some s ∧ ready as a s) :
    ReadsList wait ready (ts ++ [.symbol .comma] ++ us) (as ++ [a]) := by
  obtain ⟨before, b, s, rfl, hs, hr⟩ := hl
  obtain ⟨s', hs', hr'⟩ := h
  exact ⟨before ++ [b], a, s', rfl, steps_then (steps_then hs (steps_one (hc before b s hr))) hs', hr'⟩

/-- Places for the expressions of a list, one for every list of those before, with commas between them. -/
structure Places where
  plan : List Expr → Plan
  slot : List Expr → Slot
  frames : List Expr → List Frame
  fits : ∀ before, Fits 0 (frames before)
  comma : ∀ before e, stepValue (plan before) (slot before) (frames before) e (.symbol .comma) =
    some ⟨plan (before ++ [e]), .operand (slot (before ++ [e])) (frames (before ++ [e]))⟩

namespace Places

def wait (p : Places) (before : List Expr) : State := ⟨p.plan before, .operand (p.slot before) (p.frames before)⟩

def Ready (p : Places) (before : List Expr) (e : Expr) (s : State) : Prop :=
  Holds 0 s (p.plan before) (p.slot before) (p.frames before) e

theorem step_comma (p : Places) (before : List Expr) (e : Expr) (s : State) (h : p.Ready before e s) :
    s.step (.symbol .comma) = some (p.wait (before ++ [e])) :=
  h.step_other rfl rfl (p.comma before e)

/-- The arguments of a call. -/
def arguments (plan : Plan) (slot : Slot) (frames : List Frame) (name : String) : Places where
  plan := fun _ => plan
  slot := fun _ => slot
  frames := fun before => .argument name before.reverse :: frames
  fits := fun _ => fits_argument 0 name _ frames
  comma := fun before e => by simp [stepValue, operator?, reduce]

/-- The partition of a window. -/
def partition (plan : Plan) (name : String) : Places where
  plan := fun _ => plan
  slot := fun before => .partition name before.reverse
  frames := fun _ => []
  fits := fun _ => fits_nil 0
  comma := fun before e => by simp [stepValue, operator?, reduce, stepWhole, nextInSlot]

/-- `GROUP BY`. -/
def groupBy (plan : Plan) : Places where
  plan := fun before => { plan with groupBy := before }
  slot := fun _ => .groupBy
  frames := fun _ => []
  fits := fun _ => fits_nil 0
  comma := fun before e => by simp [stepValue, operator?, reduce, stepWhole, nextInSlot]

end Places

/-- The expressions are read in all places for a list. -/
def ReadableList (ts : List Token) (es : List Expr) : Prop := ∀ p : Places, ReadsList p.wait p.Ready ts es

/-- Behind the parenthesis of a call, what does not end it starts an argument. -/
theorem step_arguments (plan : Plan) (slot : Slot) (frames : List Frame) (name : String) {t : Token}
    (hp : t ≠ .symbol .rightParen) (hs : t ≠ .symbol .star) :
    State.step ⟨plan, .arguments slot frames name⟩ t =
      State.step ⟨plan, .operand slot (.argument name [] :: frames)⟩ t := by
  have hf : State.follow ⟨plan, .arguments slot frames name⟩ t =
      (stepOperand slot (.argument name [] :: frames) t).map (State.mk plan) := by
    cases t with
    | symbol s => cases s <;> first | rfl | contradiction
    | _ => rfl
  have hx : State.extend ⟨plan, .arguments slot frames name⟩ t = none := by
    cases t <;> rfl
  rw [step_operand, step_of_extend_none hx]
  show (State.follow ⟨plan, .arguments slot frames name⟩ t).or none = _
  rw [Option.or_none, hf]

theorem steps_arguments {plan : Plan} {slot : Slot} {frames : List Frame} {name : String} {ts : List Token}
    {s : State} (hne : ts ≠ []) (h : steps ⟨plan, .operand slot (.argument name [] :: frames)⟩ ts = some s) :
    steps ⟨plan, .arguments slot frames name⟩ ts = some s := by
  obtain ⟨t, ts, rfl⟩ := List.exists_cons_of_ne_nil hne
  rw [steps_cons] at h ⊢
  rw [step_arguments, h]
  · intro he
    subst he
    cases h
  · intro he
    subst he
    rw [step_operand] at h
    cases slot <;> cases h

theorem Holds.ne_nil {n : Nat} {plan plan' : Plan} {slot slot' : Slot} {frames frames' : List Frame} {e : Expr}
    {ts : List Token} {s : State} (hs : steps ⟨plan, .operand slot frames⟩ ts = some s)
    (h : Holds n s plan' slot' frames' e) : ts ≠ [] := by
  intro he
  subst he
  cases hs
  obtain ⟨_, _, hx, _⟩ := h
  cases hx

theorem readable_call (n : Nat) {t : Token} {name : String} {ts : List Token} {args : List Expr}
    (hf : FunctionName t name) (h : ReadableList ts args) :
    Readable n ([t, .symbol .leftParen] ++ ts ++ [.symbol .rightParen]) (.call name args) := by
  intro plan slot frames _
  obtain ⟨before, e, s, rfl, hs, hold⟩ := h (Places.arguments plan slot frames name)
  have hs' : steps ⟨plan, .arguments slot frames name⟩ ts = some s := steps_arguments (Holds.ne_nil hs hold) hs
  have hclose : s.step (.symbol .rightParen) = some ⟨plan, .value slot frames (.call name (before ++ [e]))⟩ :=
    hold.step_other rfl rfl (by simp [stepValue, operator?, reduce, Places.arguments])
  exact ⟨⟨plan, .value slot frames (.call name (before ++ [e]))⟩,
    steps_then (steps_then (steps_functionName hf plan slot frames) hs') (steps_one hclose), holds_value ..⟩

mutual

theorem readable_expression {n : Nat} {ts : List Token} {e : Expr} : Expression n ts e → Readable n ts e
  | .integer k => readable_literal n rfl
  | .float x => readable_literal n rfl
  | .text s => readable_literal n rfl
  | .true_ w => readable_literal n rfl
  | .false_ w => readable_literal n rfl
  | .null w => readable_literal n rfl
  | .column h => readable_column n h
  | .callEmpty h => readable_callEmpty n h
  | .callStar h => readable_callStar n h
  | .call hf h => readable_call n hf (readable_expressions h)
  | .paren h => readable_paren n (readable_expression h)
  | .minusNumber hn h => readable_minus hn (readable_expression h)
  | .minus hn h hne => by
    have := readable_minus hn (readable_expression h)
    rwa [negated_eq hne] at this
  | .binary op hn ha hb => readable_binary op hn (readable_expression ha) (readable_expression hb)

theorem readable_expressions {ts : List Token} {es : List Expr} : Expressions ts es → ReadableList ts es
  | .single h, p => .single (readable_expression h _ _ _ (p.fits []))
  | .more hl h, p => .more p.step_comma (readable_expressions hl p) (readable_expression h _ _ _ (p.fits _))

end

end JsonTables.Statement
