/-
  JsonTables.Proofs.Expr.RoundTrip — an expression that is printed and read again is itself.

  An operand with an operator of its own is printed in parentheses, so beside an operator everything is
  as tight as the minus sign, and the levels of the grammar do not matter. What is printed behind an
  expression never goes on with its last token, and behind a minus sign stands no other one.

  Printable are the expressions of these kinds whose names can be read: what is between the dots of a
  column is an identifier, reserved or not, and a function has a name that may be called. A text holds no
  backslash. A binary number is finite and no integer, as an integer is printed without a point. Behind a
  minus sign stands neither a number, to which the sign would belong, nor another minus sign.

  Proved:
  - `Expr.reads`: what is printed of an expression has tokens which the grammar reads as the expression.
  - `Selected.reads`: so has a rank over a window.
  - `ItemContent.integers_eq`: the integers among the tokens are those of the literals, without their signs.
-/

import JsonTables.Proofs.Expr.Text
import JsonTables.Proofs.Grammar
import JsonTables.Proofs.Token.Lexing

namespace JsonTables

open Grammar Token

/-! ## What can be printed -/

/-- A name that may stand in front of the parenthesis of a call. -/
def IsFunctionName (name : String) : Prop :=
  IsIdentifier name ∧ ∀ k ∈ Keyword.ofName? name, k = .contains ∨ k = .left ∨ k = .right

def Literal.Printable : Literal → Prop
  | .number (.float x) => x.isFinite = true ∧ x.integer? = none
  | .text s => '\\' ∉ s.toList
  | _ => True

namespace Expr

/-- Whether a minus sign in front makes a new expression, and no comment. -/
def TakesMinus : Expr → Prop
  | negate _ | literal (.number _) => False
  | _ => True

mutual

def Printable : Expr → Prop
  | literal l => l.Printable
  | column name => ∀ segment ∈ pathSegments name, IsIdentifier segment
  | call name args => IsFunctionName name ∧ AllPrintable args
  | callStar name => IsFunctionName name
  | binary _ left right => left.Printable ∧ right.Printable
  | negate operand => operand.Printable ∧ operand.TakesMinus

def AllPrintable : List Expr → Prop
  | [] => True
  | e :: rest => e.Printable ∧ AllPrintable rest

end

end Expr

def Window.Printable (w : Window) : Prop :=
  IsFunctionName w.name ∧ Expr.AllPrintable w.partitionBy ∧ ∀ o ∈ w.orderBy, o.expr.Printable

/-- An expression, or a rank over a window. -/
def Selected.Printable : Selected → Prop
  | star => False
  | expr e => e.Printable
  | window w => w.Printable

/-! ## Integers -/

theorem Expr.integersOf_append (es es' : List Expr) : integersOf (es ++ es') = integersOf es ++ integersOf es' := by
  induction es with
  | nil => rfl
  | cons e es ih => rw [List.cons_append, integersOf, ih, integersOf, List.append_assoc]

namespace Grammar

theorem integers_append (ts us : List Token) : integers (ts ++ us) = integers ts ++ integers us := List.filterMap_append

theorem Column.integers_eq {ts : List Token} {name : String} (h : Column ts name) : Token.integers ts = [] := by
  induction h with
  | single => rfl
  | dotted part _ ih => rw [integers_append, ih]; rfl

theorem FunctionName.integers_cons {t : Token} {name : String} (h : FunctionName t name) (ts : List Token) :
    Token.integers (t :: ts) = Token.integers ts := by
  cases h <;> rfl

mutual

/-- Of every literal that is an integer there is one token, of the same digits. -/
theorem Expression.integers_eq {n : Nat} {ts : List Token} {e : Expr} :
    Expression n ts e → Token.integers ts = e.integers.map Int.natAbs
  | .integer _ | .float _ | .text _ | .true_ _ | .false_ _ | .null _ => rfl
  | .column h => h.integers_eq
  | .callEmpty h | .callStar h => h.integers_cons _
  | .call hf h => by
    rw [integers_append, integers_append, hf.integers_cons, h.integers_eq]
    exact List.append_nil _
  | .paren h => by
    rw [integers_append, integers_append, h.integers_eq]
    exact List.append_nil _
  | @Expression.minusNumber _ _ x _ h => by
    rw [integers_append, h.integers_eq]
    cases x with
    | int n => exact congrArg (fun k => [k]) (Int.natAbs_neg n).symm
    | float x => rfl
  | .minus _ h _ => by
    rw [integers_append, h.integers_eq]
    rfl
  | .binary op _ ha hb => by
    rw [integers_append, integers_append, ha.integers_eq, hb.integers_eq, Expr.integers, List.map_append]
    exact congrArg (· ++ _) (List.append_nil _)

theorem Expressions.integers_eq {ts : List Token} {es : List Expr} :
    Expressions ts es → Token.integers ts = (Expr.integersOf es).map Int.natAbs
  | .single h => by rw [h.integers_eq, Expr.integersOf, Expr.integersOf, List.append_nil]
  | .more hl h => by
    rw [integers_append, integers_append, hl.integers_eq, h.integers_eq, Expr.integersOf_append, List.map_append]
    simp [Token.integers, Expr.integersOf]

end

theorem OrderKeys.integers_eq {ts : List Token} {os : List OrderItem} (h : OrderKeys ts os) :
    Token.integers ts = (os.flatMap fun o => o.expr.integers).map Int.natAbs := by
  have hkey {us : List Token} {o : OrderItem} (h : OrderKey us o) : Token.integers us = o.expr.integers.map Int.natAbs := by
    cases h with
    | bare h => exact h.integers_eq
    | asc w h | desc w h =>
      rw [integers_append, h.integers_eq]
      exact List.append_nil _
  induction h with
  | single h => rw [hkey h, List.flatMap_singleton]
  | more _ h ih =>
    rw [integers_append, integers_append, ih, hkey h, List.flatMap_append, List.map_append, List.flatMap_singleton]
    exact congrArg (· ++ _) (List.append_nil _)

theorem WindowCall.integers_eq {ts : List Token} {w : Window} (h : WindowCall ts w) :
    Token.integers ts = w.integers.map Int.natAbs := by
  obtain @⟨t, name, ps, os, partition, order, o, hn, hp, ho⟩ := h
  have hpartition : Token.integers ps = (Expr.integersOf partition).map Int.natAbs := by
    cases hp with
    | absent => rfl
    | present w b h => exact h.integers_eq
  have horder : Token.integers os = (order.flatMap fun o => o.expr.integers).map Int.natAbs := by
    cases ho with
    | absent => rfl
    | present w b h => exact h.integers_eq
  rw [integers_append, integers_append, integers_append, hn.integers_cons, hpartition, horder, Window.integers,
    List.map_append]
  exact List.append_nil _

theorem ItemContent.integers_eq {ts : List Token} {s : Selected} (h : ItemContent ts s) :
    Token.integers ts = s.integers.map Int.natAbs := by
  cases h with
  | expr h => exact h.integers_eq
  | window h => exact h.integers_eq

end Grammar

/-! ## Printed pieces -/

/-- The text is read as these tokens, in front of all that may stand behind an expression. -/
def Writes (s : String) (ts : List Token) : Prop :=
  ∀ rest us, Stops rest → Lexed rest us → Lexed (s.toList ++ rest) (ts ++ us)

theorem lexed_open {rest : List Char} {us : List Token} (h : Lexed rest us) :
    Lexed ('(' :: rest) (.symbol .leftParen :: us) := lexed_symbol (fun _ => rfl) h

theorem lexed_close {rest : List Char} {us : List Token} (h : Lexed rest us) :
    Lexed (')' :: rest) (.symbol .rightParen :: us) := lexed_symbol (fun _ => rfl) h

theorem Writes.blank {s t : String} {ts us : List Token} (hs : Writes s ts) (ht : Writes t us) :
    Writes (s ++ " " ++ t) (ts ++ us) := by
  intro rest vs hrest h
  have hbehind : Lexed (' ' :: (t.toList ++ rest)) (us ++ vs) := lexed_blank (ht rest vs hrest h)
  simpa using hs _ _ (stops_cons (by simp) _) hbehind

theorem Writes.comma {s t : String} {ts us : List Token} (hs : Writes s ts) (ht : Writes t us) :
    Writes (s ++ ", " ++ t) (ts ++ [.symbol .comma] ++ us) := by
  intro rest vs hrest h
  have hbehind : Lexed (',' :: ' ' :: (t.toList ++ rest)) (.symbol .comma :: (us ++ vs)) :=
    lexed_symbol (fun _ => rfl) (lexed_blank (ht rest vs hrest h))
  simpa using hs _ _ (stops_cons (by simp) _) hbehind

theorem Writes.parens {s : String} {ts : List Token} (hs : Writes s ts) :
    Writes ("(" ++ s ++ ")") ([.symbol .leftParen] ++ ts ++ [.symbol .rightParen]) := by
  intro rest vs _ h
  simpa using lexed_open (hs _ _ (stops_cons (by simp) _) (lexed_close h))

theorem isNameChar_of_stops {rest : List Char} (h : Stops rest) : ∀ c ∈ rest.head?, isNameChar c = false := by
  intro c hc
  rcases h c hc with rfl | rfl | rfl <;> rfl

theorem writes_word {w : String} {k : Keyword} (hw : IsIdentifier w) (hk : Keyword.ofName? w = some k) :
    Writes w [.keyword k w] := by
  intro rest us hrest h
  have hname : ofName w = .keyword k w := by
    rw [ofName, hk]
  have hlexed := lexed_name hw (isNameChar_of_stops hrest) h
  rwa [hname] at hlexed

/-- Commas between members that are read make a list that is read. -/
theorem reads_list {α : Type} {One : List Token → α → Prop} {Many : List Token → List α → Prop} (text : α → String)
    (hsingle : ∀ {ts a}, One ts a → Many ts [a])
    (hcons : ∀ {ts us a as}, One ts a → Many us as → Many (ts ++ [.symbol .comma] ++ us) (a :: as)) {as : List α}
    (hne : as ≠ []) (h : ∀ a ∈ as, ∃ ts, Writes (text a) ts ∧ One ts a) :
    ∃ ts, Writes (", ".intercalate (as.map text)) ts ∧ Many ts as := by
  induction as with
  | nil => exact absurd rfl hne
  | cons a as ih =>
    obtain ⟨ts, hw, ha⟩ := h a List.mem_cons_self
    cases as with
    | nil => exact ⟨ts, by simpa using hw, hsingle ha⟩
    | cons b as =>
      obtain ⟨us, hus, has⟩ := ih (by simp) fun c hc => h c (List.mem_cons_of_mem _ hc)
      refine ⟨ts ++ [.symbol .comma] ++ us, ?_, hcons ha has⟩
      simp only [List.map_cons, String.intercalate_cons_cons] at hus ⊢
      exact hw.comma hus

/-! ## Literals -/

theorem writes_natural (n : Nat) : Writes (toString n) [.integer n] := by
  intro rest us hrest h
  have htext : (toString n).toList = Nat.toDigits 10 n := String.toList_ofList
  rw [htext]
  exact lexed_natural n hrest h

theorem head_toDigits (n : Nat) (rest : List Char) : (Nat.toDigits 10 n ++ rest).head? ≠ some '-' := by
  obtain ⟨c, cs, hcs⟩ := List.exists_cons_of_ne_nil (digits_toDigits n).1
  have hdigit : c.isDigit = true := (digits_toDigits n).2 c (by simp [hcs])
  rw [hcs]
  intro he
  cases he
  cases hdigit

theorem Literal.reads_int (n : Int) :
    ∃ ts, Writes (toString n) ts ∧ Expression 3 ts (.literal (.number (.int n))) := by
  cases n with
  | ofNat k => exact ⟨[.integer k], writes_natural k, .integer k⟩
  | negSucc k =>
    refine ⟨[.symbol .minus] ++ [.integer (k + 1)], ?_, .minusNumber (Nat.le_refl 3) (.integer (k + 1))⟩
    intro rest us hrest h
    have htext : (toString (Int.negSucc k)).toList ++ rest = '-' :: (Nat.toDigits 10 (k + 1) ++ rest) := by
      have hsucc : toString (Int.negSucc k) = "-" ++ toString (k + 1) := rfl
      simp [hsucc]
    rw [htext]
    exact lexed_minus (head_toDigits _ _) (lexed_natural (k + 1) hrest h)

theorem Literal.reads_float {x : Binary64} (hx : x.isFinite = true) :
    ∃ ts, Writes (Binary64.plain.text x) ts ∧ Expression 3 ts (.literal (.number (.float x))) := by
  obtain ⟨w, htext, hform, hvalue⟩ := text_written Binary64.plain hx
  cases hneg : x.isNegative with
  | false =>
    have habs : x.abs = x := by
      cases x <;> simp_all [Binary64.isNegative, Binary64.abs]
    refine ⟨[.float x], fun rest us hrest h => ?_, .float x⟩
    have hlexed := lexed_written w hform hrest h
    rw [hvalue, habs] at hlexed
    simpa [htext, hneg] using hlexed
  | true =>
    have habs : x.abs.neg = x := by
      cases x <;> simp_all [Binary64.isNegative, Binary64.abs, Binary64.neg, Binary64.isFinite, Binary64.value?]
    have hminus : Expression 3 ([.symbol .minus] ++ [.float x.abs]) (.literal (.number (.float x))) := by
      have hfold := Expression.minusNumber (Nat.le_refl 3) (.float x.abs)
      rwa [Number.neg, habs] at hfold
    refine ⟨_, fun rest us hrest h => ?_, hminus⟩
    have hlexed := lexed_written w hform hrest h
    have hhead : (w.text ++ rest).head? ≠ some '-' := by
      obtain ⟨c, hc, hdigit⟩ := w.head_text
      obtain ⟨cs, hcs⟩ := List.head?_eq_some_iff.mp hc
      rw [hcs]
      intro he
      cases he
      cases hdigit
    rw [hvalue] at hlexed
    simpa [htext, hneg] using lexed_minus hhead hlexed

theorem head_of_stops {rest : List Char} (h : Stops rest) : rest.head? ≠ some '\x27' := by
  intro hc
  rcases h '\x27' hc with h | h | h <;> cases h

theorem Literal.reads {l : Literal} (h : l.Printable) :
    ∃ ts, Writes l.render ts ∧ Expression 3 ts (.literal l) := by
  cases l with
  | null => exact ⟨[.keyword .null "null"], writes_word (by decide) (by decide), .null "null"⟩
  | bool b =>
    cases b with
    | true => exact ⟨[.keyword .true_ "true"], writes_word (by decide) (by decide), .true_ "true"⟩
    | false => exact ⟨[.keyword .false_ "false"], writes_word (by decide) (by decide), .false_ "false"⟩
  | text s =>
    exact ⟨[.text s], fun rest us hrest hl => lexed_quote h (head_of_stops hrest) hl, .text s⟩
  | number n =>
    cases n with
    | int n => exact Literal.reads_int n
    | float x =>
      have hrender : (Literal.number (.float x)).render = Binary64.plain.text x := by
        simp only [Literal.render, Literal.toValue, Value.asText, Number.normalize, h.2, Number.text]
      rw [hrender]
      exact Literal.reads_float h.1

/-! ## Columns -/

theorem reads_segments {segments : List String} (hne : segments ≠ []) (h : ∀ s ∈ segments, IsIdentifier s) :
    ∃ ts, Writes (".".intercalate (segments.map escapeName)) ts ∧ Column ts (".".intercalate segments) := by
  induction segments with
  | nil => exact absurd rfl hne
  | cons s segments ih =>
    have hs := h s List.mem_cons_self
    cases segments with
    | nil =>
      refine ⟨[.identifier s], fun rest us hrest hl => ?_, ?_⟩
      · simpa using lexed_segment hs (isNameChar_of_stops hrest) hl
      · simpa using Column.single s
    | cons t segments =>
      obtain ⟨ts, hw, hc⟩ := ih (by simp) fun s hs => h s (List.mem_cons_of_mem _ hs)
      refine ⟨[.identifier s, .symbol .dot] ++ ts, fun rest us hrest hl => ?_, ?_⟩
      · have hdot := @lexed_symbol '.' .dot (fun _ => rfl) _ _ (hw rest us hrest hl)
        have hsegment := lexed_segment hs (fun c hc => by cases hc; rfl) hdot
        simpa [String.intercalate_cons_cons] using hsegment
      · rw [String.intercalate_cons_cons]
        exact hc.cons s

/-! ## Calls -/

theorem IsFunctionName.functionName {name : String} (h : IsFunctionName name) : FunctionName (ofName name) name := by
  cases hk : Keyword.ofName? name with
  | none =>
    simp only [ofName, hk]
    exact .identifier name
  | some k =>
    simp only [ofName, hk]
    rcases h.2 k hk with rfl | rfl | rfl
    · exact .contains name
    · exact .left name
    · exact .right name

theorem IsFunctionName.lexed {name : String} (h : IsFunctionName name) {rest : List Char} {us : List Token}
    (hl : Lexed rest us) : Lexed (name.toList ++ '(' :: rest) (ofName name :: .symbol .leftParen :: us) :=
  lexed_name h.1 (fun c hc => by cases hc; rfl) (lexed_open hl)

/-! ## Expressions -/

/-- The expression as printed is read as itself; one without an operator is as tight as a minus sign. -/
def Expr.Reads (e : Expr) : Prop :=
  ∃ ts, Writes e.render ts ∧ Expression (if e.isBinary then 0 else 3) ts e

theorem Expr.Reads.loose {e : Expr} (h : e.Reads) : ∃ ts, Writes e.render ts ∧ Expression 0 ts e := by
  obtain ⟨ts, hw, he⟩ := h
  exact ⟨ts, hw, he.mono (Nat.zero_le _)⟩

theorem Expr.Reads.guarded {e : Expr} (h : e.Reads) :
    ∃ ts, Writes (e.guarded e.render) ts ∧ Expression 3 ts e := by
  obtain ⟨ts, hw, he⟩ := h
  unfold Expr.guarded
  split
  · exact ⟨_, hw.parens, .paren (he.mono (Nat.zero_le _))⟩
  · rename_i hb
    rw [if_neg hb] at he
    exact ⟨ts, hw, he⟩

theorem lexed_operator (op : Operator) {rest : List Char} {us : List Token} (h : Lexed (' ' :: rest) us) :
    Lexed (op.spelling.toList ++ ' ' :: rest) (.symbol (symbolOf op) :: us) := by
  cases op with
  | sub => exact lexed_minus (by simp) h
  | _ => exact lexed_symbol (fun _ => rfl) h

theorem Expr.reads_binary (op : Operator) {left right : Expr} (hl : left.Reads) (hr : right.Reads) :
    (binary op left right).Reads := by
  obtain ⟨ts, hwl, hel⟩ := hl.guarded
  obtain ⟨us, hwr, her⟩ := hr.guarded
  refine ⟨ts ++ [.symbol (symbolOf op)] ++ us, fun rest vs hrest h => ?_, ?_⟩
  · have hright := lexed_operator op (lexed_blank (hwr rest vs hrest h))
    have hleft := hwl _ _ (stops_cons (by simp) _) (lexed_blank hright)
    simpa [Expr.render, Expr.renderWith] using hleft
  · have hlevel : levelOf op + 1 ≤ 3 := by
      cases op <;> decide
    exact .binary op (Nat.zero_le _) (hel.mono (by omega)) (her.mono hlevel)

theorem Expr.reads_column {name : String} (h : (column name).Printable) : (column name).Reads := by
  obtain ⟨ts, hw, hc⟩ := reads_segments (pathSegments_ne_nil name) h
  rw [intercalate_pathSegments] at hc
  exact ⟨ts, hw, .column hc⟩

theorem Expr.reads_callStar {name : String} (h : IsFunctionName name) : (callStar name).Reads := by
  refine ⟨[ofName name, .symbol .leftParen, .symbol .star, .symbol .rightParen], fun rest us _ hl => ?_,
    .callStar h.functionName⟩
  have hstar := @lexed_symbol '*' .star (fun _ => rfl) _ _ (lexed_close hl)
  simpa [Expr.render, Expr.renderWith] using h.lexed hstar

theorem renderAll_eq_map (fold : String → String) (es : List Expr) :
    Expr.renderAll fold es = es.map (Expr.renderWith fold) := by
  induction es with
  | nil => rfl
  | cons e es ih => rw [Expr.renderAll, ih, List.map_cons]

theorem reads_expressions {es : List Expr} (hne : es ≠ []) (h : ∀ e ∈ es, e.Reads) :
    ∃ ts, Writes (", ".intercalate (es.map (Expr.renderWith id))) ts ∧ Expressions ts es :=
  reads_list (Expr.renderWith id) .single (fun he hs => .cons he hs) hne fun e he => (h e he).loose

theorem Expr.reads_call {name : String} {args : List Expr} (h : IsFunctionName name) (hargs : ∀ a ∈ args, a.Reads) :
    (call name args).Reads := by
  by_cases hne : args = []
  · subst hne
    refine ⟨[ofName name, .symbol .leftParen, .symbol .rightParen], fun rest us _ hl => ?_, .callEmpty h.functionName⟩
    simpa [Expr.render, Expr.renderWith, Expr.renderAll] using h.lexed (lexed_close hl)
  · obtain ⟨ts, hw, hx⟩ := reads_expressions hne hargs
    refine ⟨_, fun rest us _ hl => ?_, .call h.functionName hx⟩
    have hinside := hw _ _ (stops_cons (by simp) _) (lexed_close hl)
    simpa [Expr.render, Expr.renderWith, renderAll_eq_map] using h.lexed hinside

/-! ## Minus signs -/

/-- The text starts, and not with a minus sign. -/
def OpensPlain (s : String) : Prop := ∃ c ∈ s.toList.head?, c ≠ '-'

theorem OpensPlain.append {s : String} (h : OpensPlain s) (t : String) : OpensPlain (s ++ t) := by
  obtain ⟨c, hc, hne⟩ := h
  refine ⟨c, ?_, hne⟩
  rw [String.toList_append, List.head?_append, Option.mem_def.mp hc]
  rfl

theorem OpensPlain.head {s : String} (h : OpensPlain s) (rest : List Char) : (s.toList ++ rest).head? ≠ some '-' := by
  obtain ⟨c, hc, hne⟩ := h
  rw [List.head?_append, Option.mem_def.mp hc]
  intro he
  cases he
  exact hne rfl

theorem OpensPlain.intercalate {s : String} (h : OpensPlain s) (separator : String) (others : List String) :
    OpensPlain (separator.intercalate (s :: others)) := by
  cases others with
  | nil => rwa [String.intercalate_singleton]
  | cons t others =>
    rw [String.intercalate_cons_cons]
    exact (h.append separator).append _

theorem opensPlain_identifier {name : String} (h : IsIdentifier name) : OpensPlain name := by
  obtain ⟨c, cs, hcs, hc, -⟩ := h.exists_cons
  refine ⟨c, by simp [hcs], ?_⟩
  intro he
  subst he
  exact absurd hc (by decide)

theorem opensPlain_escapeName {name : String} (h : IsIdentifier name) : OpensPlain (escapeName name) := by
  unfold escapeName
  split
  · have htick : OpensPlain "\x60" := ⟨'\x60', rfl, by decide⟩
    exact (htick.append name).append "\x60"
  · exact opensPlain_identifier h

/-- What takes a minus sign does not start with one. -/
theorem Expr.opensPlain_guarded {e : Expr} (h : e.Printable) (hm : e.TakesMinus) :
    OpensPlain (e.guarded e.render) := by
  cases e with
  | literal l =>
    cases l with
    | null => exact ⟨'n', rfl, by decide⟩
    | bool b =>
      cases b with
      | true => exact ⟨'t', rfl, by decide⟩
      | false => exact ⟨'f', rfl, by decide⟩
    | number n => cases hm
    | text s =>
      have hquote : OpensPlain "'" := ⟨'\x27', rfl, by decide⟩
      exact (hquote.append _).append "'"
  | column name =>
    obtain ⟨s, segments, hs⟩ := List.exists_cons_of_ne_nil (pathSegments_ne_nil name)
    have hopen := (opensPlain_escapeName (h s (by simp [hs]))).intercalate "." (segments.map escapeName)
    simpa [Expr.guarded, Expr.isBinary, Expr.render, Expr.renderWith, hs] using hopen
  | call name args => exact (((opensPlain_identifier h.1.1).append "(").append _).append ")"
  | callStar name => exact (opensPlain_identifier h.1).append "(*)"
  | binary op left right =>
    have hopen : OpensPlain "(" := ⟨'(', rfl, by decide⟩
    exact (hopen.append _).append ")"
  | negate operand => cases hm

theorem Expr.TakesMinus.ne_number {e : Expr} (h : e.TakesMinus) (x : Number) : e ≠ literal (.number x) := by
  intro he
  subst he
  cases h

theorem Expr.reads_negate {e : Expr} (h : e.Printable) (hm : e.TakesMinus) (he : e.Reads) : (negate e).Reads := by
  obtain ⟨ts, hw, hx⟩ := he.guarded
  refine ⟨[.symbol .minus] ++ ts, fun rest us hrest hl => ?_, .minus (by simp [Expr.isBinary]) hx hm.ne_number⟩
  have hminus := lexed_minus ((opensPlain_guarded h hm).head rest) (hw rest us hrest hl)
  simpa [Expr.render, Expr.renderWith] using hminus

/-! ## Every printable expression -/

mutual

theorem Expr.reads : ∀ {e : Expr}, e.Printable → e.Reads
  | literal _, h => Literal.reads h
  | column _, h => reads_column h
  | call _ _, h => reads_call h.1 (reads_all h.2)
  | callStar _, h => reads_callStar h
  | binary op _ _, h => reads_binary op (reads h.1) (reads h.2)
  | negate _, h => reads_negate h.1 h.2 (reads h.1)

theorem Expr.reads_all : ∀ {es : List Expr}, AllPrintable es → ∀ e ∈ es, e.Reads
  | [], _, _, he => nomatch he
  | _ :: _, h, _, .head _ => reads h.1
  | _ :: _, h, _, .tail _ he => reads_all h.2 _ he

end

/-! ## Windows -/

theorem OrderItem.reads {o : OrderItem} (h : o.expr.Reads) :
    ∃ ts, Writes (o.expr.render ++ " " ++ o.direction.spelling) ts ∧ OrderKey ts o := by
  obtain ⟨e, direction⟩ := o
  obtain ⟨ts, hw, hx⟩ := h.loose
  cases direction with
  | ascending =>
    have hasc : Writes "ASC" [.keyword .asc "ASC"] := writes_word (by decide) (by decide)
    exact ⟨_, hw.blank hasc, .asc "ASC" hx⟩
  | descending =>
    have hdesc : Writes "DESC" [.keyword .desc "DESC"] := writes_word (by decide) (by decide)
    exact ⟨_, hw.blank hdesc, .desc "DESC" hx⟩

/-- A part of a window that is there or not, and its tokens. -/
def WritesPart (parts : List String) (ts : List Token) : Prop :=
  parts = [] ∧ ts = [] ∨ ∃ s, parts = [s] ∧ Writes s ts

theorem writes_parts {parts parts' : List String} {ts us : List Token} (h : WritesPart parts ts)
    (h' : WritesPart parts' us) : Writes (" ".intercalate (parts ++ parts')) (ts ++ us) := by
  have hnone : Writes "" [] := fun rest vs _ hl => hl
  rcases h with ⟨rfl, rfl⟩ | ⟨s, rfl, hs⟩ <;> rcases h' with ⟨rfl, rfl⟩ | ⟨t, rfl, ht⟩
  · simpa using hnone
  · simpa using ht
  · simpa using hs
  · simpa [String.intercalate_cons_cons] using hs.blank ht

theorem writes_by {w front : String} {k : Keyword} (hfront : front = w ++ " " ++ "BY" ++ " ") (hw : IsIdentifier w)
    (hk : Keyword.ofName? w = some k) {s : String} {ts : List Token} (hs : Writes s ts) :
    Writes (front ++ s) ([.keyword k w, .keyword .by_ "BY"] ++ ts) := by
  have hby : Writes "BY" [.keyword .by_ "BY"] := writes_word (by decide) (by decide)
  rw [hfront]
  exact ((writes_word hw hk).blank hby).blank hs

theorem reads_partitionBy {es : List Expr} (h : Expr.AllPrintable es) :
    ∃ ts, WritesPart (if es.isEmpty then [] else ["PARTITION BY " ++ ", ".intercalate (es.map (Expr.renderWith id))]) ts ∧
      ListClause .partition ts es := by
  by_cases hne : es = []
  · subst hne
    exact ⟨[], .inl ⟨rfl, rfl⟩, .absent⟩
  · obtain ⟨ts, hw, hx⟩ := reads_expressions hne (Expr.reads_all h)
    refine ⟨_, .inr ⟨_, if_neg (by simpa using hne), ?_⟩, .present "PARTITION" "BY" hx⟩
    exact writes_by (by decide) (by decide) (by decide) hw

theorem reads_orderBy {os : List OrderItem} (h : ∀ o ∈ os, o.expr.Printable) :
    ∃ ts, WritesPart (if os.isEmpty then [] else ["ORDER BY " ++
        ", ".intercalate (os.map fun o => Expr.renderWith id o.expr ++ " " ++ o.direction.spelling)]) ts ∧
      OrderClause ts os := by
  by_cases hne : os = []
  · subst hne
    exact ⟨[], .inl ⟨rfl, rfl⟩, .absent⟩
  · obtain ⟨ts, hw, hx⟩ := @reads_list OrderItem OrderKey OrderKeys
      (fun o => Expr.renderWith id o.expr ++ " " ++ o.direction.spelling) (fun ho => .single ho)
      (fun ho hs => .cons ho hs) os hne fun o ho => OrderItem.reads (Expr.reads (h o ho))
    refine ⟨_, .inr ⟨_, if_neg (by simpa using hne), ?_⟩, .present "ORDER" "BY" hx⟩
    exact writes_by (by decide) (by decide) (by decide) hw

theorem Window.reads {w : Window} (h : w.Printable) :
    ∃ ts, Writes (w.renderWith id) ts ∧ WindowCall ts w := by
  obtain ⟨name, partition, order⟩ := w
  obtain ⟨hname, hpartition, horder⟩ := h
  obtain ⟨ps, hps, hp⟩ := reads_partitionBy hpartition
  obtain ⟨os, hos, ho⟩ := reads_orderBy horder
  have hover : Writes "OVER" [.keyword .over_ "OVER"] := writes_word (by decide) (by decide)
  refine ⟨_, fun rest us _ hl => ?_, .mk "OVER" hname.functionName hp ho⟩
  have hinside := writes_parts hps hos _ _ (stops_cons (by simp) rest) (lexed_close hl)
  have hbehind := hover _ _ (stops_cons (by simp) _) (lexed_blank (lexed_open hinside))
  have hcall := hname.lexed (lexed_close (lexed_blank hbehind))
  simpa [Window.renderWith] using hcall

theorem Selected.reads {s : Selected} (h : s.Printable) : ∃ ts, Writes s.render ts ∧ ItemContent ts s := by
  cases s with
  | star => cases h
  | expr e =>
    obtain ⟨ts, hw, hx⟩ := (Expr.reads h).loose
    exact ⟨ts, hw, .expr hx⟩
  | window w =>
    obtain ⟨ts, hw, hx⟩ := Window.reads h
    exact ⟨ts, hw, .window hx⟩

end JsonTables
