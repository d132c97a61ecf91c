/-
  JsonTables.Proofs.TopLevel — cutting a text at a symbol agrees with cutting its tokens.

  Where the lexer can read a text, the scan for top-level delimiters stands in plain text at each end of
  a token or a comment, and counts the parentheses among the tokens. So a piece holds the tokens between
  two delimiters that are tokens outside parentheses. A name between backticks with a backslash in it is
  the exception: there the scan takes the backslash with the next character, the lexer does not.

  Proved:
  - `pieces_append`: the pieces of two stretches of text, one behind the other.
  - `pieces_runs`: each piece holds one run of tokens.
  - `split_agrees_with_lexer`: the statements of a text, read one by one.
-/

import JsonTables.Proofs.Evaluation
import JsonTables.Proofs.Statement.Exact
import JsonTables.Proofs.Token.Scanning
import JsonTables.TopLevel

namespace JsonTables.TopLevel

open Token

/-! ## Runs of tokens -/

/-- The tokens between those that are the symbol outside parentheses. -/
def runs (s : Symbol) (depth : Nat) : List Token → List (List Token)
  | [] => [[]]
  | t :: ts =>
    if t = .symbol s ∧ depth = 0 then [] :: runs s 0 ts
    else (runs s (Statement.depthAfter depth [t]) ts).modifyHead (t :: ·)

/-- The last of the first pieces and the first of the others are one. -/
def glue {α : Type} : List (List α) → List (List α) → List (List α)
  | [], ys => ys
  | [x], ys => ys.modifyHead (x ++ ·)
  | x :: x' :: xs, ys => x :: glue (x' :: xs) ys

theorem glue_nil {α : Type} (ys : List (List α)) : glue [[]] ys = ys := by
  cases ys <;> rfl

theorem glue_cons {α : Type} {x : List α} {xs : List (List α)} (h : xs ≠ []) (ys : List (List α)) :
    glue (x :: xs) ys = x :: glue xs ys := by
  cases xs with
  | nil => exact absurd rfl h
  | cons => rfl

theorem glue_concat {α : Type} (xs : List (List α)) (x y : List α) (ys : List (List α)) :
    glue (xs ++ [x]) (y :: ys) = xs ++ (x ++ y) :: ys := by
  induction xs with
  | nil => rfl
  | cons x' xs ih => rw [List.cons_append, glue_cons (by simp), ih, List.cons_append]

theorem glue_modifyHead {α : Type} (x : List α) {xs : List (List α)} (h : xs ≠ []) (ys : List (List α)) :
    glue (xs.modifyHead (x ++ ·)) ys = (glue xs ys).modifyHead (x ++ ·) := by
  match xs, h with
  | [x'], _ =>
    show ys.modifyHead (x ++ x' ++ ·) = (ys.modifyHead (x' ++ ·)).modifyHead (x ++ ·)
    rw [List.modifyHead_modifyHead]
    simp only [Function.comp_def, List.append_assoc]
  | _ :: _ :: _, _ => rfl

theorem runs_ne_nil (s : Symbol) (depth : Nat) (ts : List Token) : runs s depth ts ≠ [] := by
  induction ts generalizing depth with
  | nil => simp [runs]
  | cons t ts ih =>
    rw [runs]
    split
    · simp
    · simp [ih]

/-! ## One step of the scan -/

section

variable {s : Symbol} {d : Char}

/-- The symbols of one character at which texts are cut. -/
inductive Separator : Symbol → Char → Prop
  | semicolon : Separator .semicolon ';'
  | comma : Separator .comma ','

theorem depthAfter_separator (hs : Separator s d) : Statement.depthAfter 0 [.symbol s] = 0 := by
  cases hs <;> rfl

theorem runs_append (hs : Separator s d) (depth : Nat) (ts us : List Token) :
    runs s depth (ts ++ us) = glue (runs s depth ts) (runs s (Statement.depthAfter depth ts) us) := by
  induction ts generalizing depth with
  | nil => exact (glue_nil _).symm
  | cons t ts ih =>
    have hdepth : Statement.depthAfter depth (t :: ts) = Statement.depthAfter (Statement.depthAfter depth [t]) ts :=
      Statement.depthAfter_append depth [t] ts
    rw [List.cons_append, runs, runs, hdepth]
    split
    · rename_i hcut
      obtain ⟨rfl, rfl⟩ := hcut
      rw [glue_cons (runs_ne_nil s 0 ts), ih, depthAfter_separator hs]
    · rw [ih]
      exact (glue_modifyHead [t] (runs_ne_nil s _ ts) _).symm

theorem pieces_current (delimiter : List Char) (place : Place) (depth : Nat) (current cs : List Char) :
    pieces delimiter place depth current cs = (pieces delimiter place depth [] cs).modifyHead (current.reverse ++ ·) := by
  have hstep {place : Place} {depth : Nat} {c : Char} {cs : List Char}
      (ih : ∀ current, pieces delimiter place depth current cs =
        (pieces delimiter place depth [] cs).modifyHead (current.reverse ++ ·)) (current : List Char) :
      pieces delimiter place depth (c :: current) cs =
        (pieces delimiter place depth [c] cs).modifyHead (current.reverse ++ ·) := by
    rw [ih (c :: current), ih [c], List.modifyHead_modifyHead]
    simp [Function.comp_def]
  induction cs generalizing place depth current with
  | nil => simp [pieces]
  | cons c cs ih =>
    unfold pieces
    cases place with
    | delimiter left =>
      cases left with
      | zero => dsimp only; split_ifs <;> first | exact hstep (fun current => ih _ _ _) current | simp
      | succ left => exact ih _ _ _
    | quote mark => exact hstep (fun current => ih _ _ _) current
    | escaped mark => exact hstep (fun current => ih _ _ _) current
    | plain => dsimp only; split_ifs <;> first | exact hstep (fun current => ih _ _ _) current | simp
    | comment => dsimp only; split_ifs <;> first | exact hstep (fun current => ih _ _ _) current | simp

/-- Behind a delimiter of one character the scan is in plain text again. -/
theorem pieces_delimiter (delimiter : List Char) (depth : Nat) (current cs : List Char) :
    pieces delimiter (.delimiter 0) depth current cs = pieces delimiter .plain depth current cs := by
  cases cs with
  | nil => rfl
  | cons c cs => simp [pieces]

/-- At the end of a line a comment is over. -/
theorem pieces_comment_end (delimiter : List Char) (depth : Nat) (current : List Char) {cs : List Char} (h : EndsLine cs) :
    pieces delimiter .comment depth current cs = pieces delimiter .plain depth current cs := by
  cases cs with
  | nil => rfl
  | cons c cs => simp [pieces, h c rfl]

theorem pieces_quote (delimiter : List Char) (mark : Char) (depth : Nat) (current : List Char) (c : Char) (rest : List Char) :
    pieces delimiter (.quote mark) depth current (c :: rest) =
      pieces delimiter (if c = '\\' then .escaped mark else if c = mark then .plain else .quote mark) depth (c :: current)
        rest := rfl

theorem pieces_escaped (delimiter : List Char) (mark : Char) (depth : Nat) (current : List Char) (c : Char)
    (rest : List Char) :
    pieces delimiter (.escaped mark) depth current (c :: rest) = pieces delimiter (.quote mark) depth (c :: current) rest :=
  rfl

theorem pieces_plain (d : Char) (depth : Nat) (current : List Char) (c : Char) (rest : List Char) :
    pieces [d] .plain depth current (c :: rest) =
      if isQuote c then pieces [d] (.quote c) depth (c :: current) rest
      else if c = '-' ∧ rest.head? = some '-' then pieces [d] .comment depth (c :: current) rest
      else if c = '(' then pieces [d] .plain (depth + 1) (c :: current) rest
      else if c = ')' then pieces [d] .plain (depth - 1) (c :: current) rest
      else if depth = 0 ∧ c = d then current.reverse :: pieces [d] .plain 0 [] rest
      else pieces [d] .plain depth (c :: current) rest := by
  have hd : [d].isPrefixOf (c :: rest) = decide (c = d) := by simp [List.isPrefixOf, Bool.beq_eq_decide_eq, eq_comm]
  rw [pieces.eq_def]
  simp [hd, pieces_delimiter]

/-- A character that opens and closes nothing. -/
structure Quiet (c : Char) : Prop where
  quote : isQuote c = false
  minus : c ≠ '-'
  opening : c ≠ '('
  closing : c ≠ ')'
  semicolon : c ≠ ';'
  comma : c ≠ ','

theorem quiet_iff {c : Char} : Quiet c ↔ c ∉ ['\x27', '\x22', '\x60', '-', '(', ')', ';', ','] := by
  simp only [List.mem_cons, List.not_mem_nil, or_false, not_or]
  constructor
  · rintro ⟨hquote, hminus, hopening, hclosing, hsemicolon, hcomma⟩
    simp only [isQuote, Bool.or_eq_false_iff, decide_eq_false_iff_not] at hquote
    tauto
  · rintro ⟨hsingle, hdouble, hback, hminus, hopening, hclosing, hsemicolon, hcomma⟩
    exact ⟨by simp [isQuote, hsingle, hdouble, hback], hminus, hopening, hclosing, hsemicolon, hcomma⟩

instance (c : Char) : Decidable (Quiet c) := decidable_of_iff _ quiet_iff.symm

/-- The characters of a class are quiet if none of the others is in it. -/
theorem quiet_of_class {p : Char → Bool} (hp : ['\x27', '\x22', '\x60', '-', '(', ')', ';', ','].all (!p ·) = true)
    {c : Char} (hc : p c = true) : Quiet c :=
  quiet_iff.mpr fun hmem => by simpa [hc] using List.all_eq_true.mp hp c hmem

theorem quiet_of_isDecimal {c : Char} (h : Text.isDecimal c = true) : Quiet c := quiet_of_class rfl h

theorem quiet_of_isNameChar {c : Char} (h : isNameChar c = true) : Quiet c := quiet_of_class rfl h

theorem pieces_quiet (hs : Separator s d) {cs : List Char} (hcs : ∀ c ∈ cs, Quiet c) (rest : List Char) (depth : Nat)
    (current : List Char) :
    pieces [d] .plain depth current (cs ++ rest) = pieces [d] .plain depth (cs.reverse ++ current) rest := by
  induction cs generalizing current with
  | nil => rfl
  | cons c cs ih =>
    have hc := hcs c List.mem_cons_self
    have hd : c ≠ d := by
      cases hs with
      | semicolon => exact hc.semicolon
      | comma => exact hc.comma
    rw [List.cons_append, pieces_plain]
    simp [hc.quote, hc.minus, hc.opening, hc.closing, hd, ih fun c' hc' => hcs c' (List.mem_cons_of_mem _ hc')]

/-- A minus that opens no comment. -/
theorem pieces_minus (hs : Separator s d) {rest : List Char} (hrest : rest.head? ≠ some '-') (depth : Nat) (current : List Char) :
    pieces [d] .plain depth current ('-' :: rest) = pieces [d] .plain depth ('-' :: current) rest := by
  cases hs <;> simp [pieces_plain, isQuote, hrest]

theorem pieces_body {mark : Char} (hmark : mark ≠ '\\') (hquote : isQuote mark = true) {body : List Char}
    (hbody : QuotedBody mark body) (rest : List Char) (depth : Nat) (current : List Char) :
    pieces [d] (.quote mark) depth current (body ++ mark :: rest) =
      pieces [d] .plain depth (mark :: (body.reverse ++ current)) rest := by
  induction hbody generalizing current with
  | nil => simp [pieces_quote, hmark]
  | escape _ _ ih => simp [pieces_quote, pieces_escaped, ih]
  | pair _ ih => simp [pieces_quote, pieces_plain, hmark, hquote, ih]
  | plain hc hq _ ih => simp [pieces_quote, hc, hq, ih]

theorem forall_quiet {ds : List Char} (h : Decimals ds) : ∀ c ∈ ds, Quiet c := fun c hc => quiet_of_isDecimal (h.2 c hc)

/-- Digits behind a sign: the digit behind a minus keeps it from opening a comment. -/
theorem pieces_signed (hs : Separator s d) {sign ds : List Char} (hsign : sign = [] ∨ sign = ['-'] ∨ sign = ['+']) (hds : Decimals ds)
    (rest : List Char) (depth : Nat) (current : List Char) :
    pieces [d] .plain depth current (sign ++ ds ++ rest) = pieces [d] .plain depth ((sign ++ ds).reverse ++ current) rest := by
  by_cases hminus : sign = ['-']
  · subst hminus
    have hhead : (ds ++ rest).head? ≠ some '-' := by
      rw [List.head?_append_of_ne_nil _ hds.1]
      exact fun hhead => (forall_quiet hds '-' (List.mem_of_head? hhead)).minus rfl
    rw [List.append_assoc, List.singleton_append, pieces_minus hs hhead, pieces_quiet hs (forall_quiet hds)]
    simp
  · have hquiet : ∀ c ∈ sign, Quiet c := by
      rcases hsign with rfl | rfl | rfl
      · exact List.forall_mem_nil _
      · exact absurd rfl hminus
      · exact List.forall_mem_singleton.mpr (by decide)
    exact pieces_quiet hs (List.forall_mem_append.mpr ⟨hquiet, forall_quiet hds⟩) rest depth current

theorem pieces_numeral (hs : Separator s d) {ws fs es : List Char} {fraction : Option (List Nat)} {exponent : Option Int}
    (hw : Decimals ws) (hf : FractionText fs fraction) (he : ExponentText es exponent) (rest : List Char) (depth : Nat)
    (current : List Char) :
    pieces [d] .plain depth current (ws ++ (fs ++ es) ++ rest) =
      pieces [d] .plain depth ((ws ++ (fs ++ es)).reverse ++ current) rest := by
  have hfraction : ∀ c ∈ fs, Quiet c := by
    cases hf with
    | absent => exact List.forall_mem_nil _
    | digits hds => exact List.forall_mem_cons.mpr ⟨by decide, forall_quiet hds⟩
  have hfront : ∀ c ∈ ws ++ fs, Quiet c := List.forall_mem_append.mpr ⟨forall_quiet hw, hfraction⟩
  cases he with
  | absent =>
    rw [List.append_nil]
    exact pieces_quiet hs hfront rest depth current
  | @digits e sign ds hletter hsign hds =>
    have hletter : Quiet e := by
      rcases hletter with rfl | rfl <;> decide
    have hbefore : ∀ c ∈ ws ++ fs ++ [e], Quiet c :=
      List.forall_mem_append.mpr ⟨hfront, List.forall_mem_singleton.mpr hletter⟩
    have hsplit : ws ++ (fs ++ e :: (sign ++ ds)) = ws ++ fs ++ [e] ++ (sign ++ ds) := by simp
    rw [hsplit, List.append_assoc (ws ++ fs ++ [e]), pieces_quiet hs hbefore, pieces_signed hs hsign hds]
    simp

/-- A name between backticks that the scan takes as the lexer does. -/
def PlainName (t : Token) : Prop := ∀ name, t = .identifier name → '\\' ∉ name.toList

theorem pieces_text {quote : Char} (hquote : quote = '\x27' ∨ quote = '\x22' ∨ quote = '\x60') {body : List Char}
    (hbody : QuotedBody quote body) (rest : List Char) (depth : Nat) (current : List Char) :
    pieces [d] .plain depth current (quote :: (body ++ [quote]) ++ rest) =
      pieces [d] .plain depth ((quote :: (body ++ [quote])).reverse ++ current) rest := by
  have hmark : quote ≠ '\\' ∧ isQuote quote = true := by
    rcases hquote with rfl | rfl | rfl <;> decide
  rw [List.cons_append, List.append_assoc, List.singleton_append, pieces_plain, if_pos hmark.2,
    pieces_body hmark.1 hmark.2 hbody]
  simp

theorem quotedBody_of_plain {quote : Char} {cs : List Char} (hquote : quote ∉ cs) (hcs : '\\' ∉ cs) :
    QuotedBody quote cs := by
  induction cs with
  | nil => exact .nil
  | cons c cs ih =>
    rw [List.mem_cons, not_or] at hquote hcs
    exact .plain (Ne.symm hcs.1) (Ne.symm hquote.1) (ih hquote.2 hcs.2)

/-- The scan passes over a token, cuts at it, or counts it. -/
theorem pieces_token (hs : Separator s d) {src rest : List Char} {t : Token} (h : Spells src t rest) (ht : PlainName t)
    (depth : Nat) (current : List Char) :
    pieces [d] .plain depth current (src ++ rest) =
      if t = .symbol s ∧ depth = 0 then current.reverse :: pieces [d] .plain 0 [] rest
      else pieces [d] .plain (Statement.depthAfter depth [t]) (src.reverse ++ current) rest := by
  cases h with
  | @number ws fs es _ fraction exponent hw hf he _ =>
    rw [pieces_numeral hs hw hf he]
    unfold ofNumeral
    split <;> simp [Statement.depthAfter]
  | @text quote body _ hq hbody _ =>
    rw [pieces_text (by tauto) hbody]
    simp [Statement.depthAfter]
  | @quotedName name _ _ hname =>
    have hbody := quotedBody_of_plain hname (by simpa using ht _ rfl)
    rw [pieces_text (by tauto) hbody]
    simp [Statement.depthAfter]
  | @name c cs _ hc hcs _ =>
    have hquiet : ∀ e ∈ c :: cs, Quiet e := by
      intro e he
      rcases List.mem_cons.mp he with rfl | he
      · rcases isNameChar_of_startsName hc with rfl | hname
        · decide
        · exact quiet_of_isNameChar hname
      · exact quiet_of_isNameChar (hcs e he)
    rw [pieces_quiet hs hquiet]
    unfold ofName
    split <;> simp [Statement.depthAfter]
  | @symbol s' _ hends =>
    cases s' with
    | minus =>
      have hspelled : pieces [d] .plain depth current (Symbol.minus.spelling.toList ++ rest) = _ := pieces_minus hs hends depth current
      cases hs <;> simpa [Symbol.spelling, Statement.depthAfter] using hspelled
    | _ => cases hs <;> simp [Symbol.spelling, pieces_plain, isQuote, Statement.depthAfter, and_comm]

theorem pieces_space (hs : Separator s d) {c : Char} (hc : IsSpace c) (depth : Nat) (cs : List Char) :
    pieces [d] .plain depth [] (c :: cs) = (pieces [d] .plain depth [] cs).modifyHead (c :: ·) := by
  have hstep : pieces [d] .plain depth [] (c :: cs) = pieces [d] .plain depth [c] cs := by
    rw [pieces_plain]
    cases hs <;> rcases hc with rfl | rfl | rfl | rfl <;> simp [isQuote]
  rw [hstep, pieces_current]
  rfl

theorem pieces_in_comment (delimiter : List Char) {body cs : List Char} (hbody : '\n' ∉ body) (depth : Nat)
    (current : List Char) :
    pieces delimiter .comment depth current (body ++ cs) = pieces delimiter .comment depth (body.reverse ++ current) cs := by
  induction body generalizing current with
  | nil => rfl
  | cons c body ih =>
    rw [List.mem_cons, not_or] at hbody
    rw [List.cons_append, pieces.eq_def]
    simp [Ne.symm hbody.1, ih hbody.2]

theorem pieces_comment {body cs : List Char} (hbody : '\n' ∉ body) (hline : EndsLine cs) (depth : Nat) :
    pieces [d] .plain depth [] ('-' :: '-' :: (body ++ cs)) =
      (pieces [d] .plain depth [] cs).modifyHead ('-' :: '-' :: body ++ ·) := by
  have hstart : pieces [d] .plain depth [] ('-' :: '-' :: (body ++ cs)) =
      pieces [d] .comment depth ['-'] ('-' :: body ++ cs) := by
    simp [pieces_plain, isQuote]
  have hmore : '\n' ∉ '-' :: body := by simp [hbody]
  rw [hstart, pieces_in_comment _ hmore, pieces_comment_end _ _ _ hline, pieces_current]
  simp

theorem pieces_spelled (hs : Separator s d) {src rest : List Char} {t : Token} (h : Spells src t rest) (ht : PlainName t)
    (depth : Nat) : pieces [d] .plain depth [] (src ++ rest) =
      if t = .symbol s ∧ depth = 0 then [] :: pieces [d] .plain 0 [] rest
      else (pieces [d] .plain (Statement.depthAfter depth [t]) [] rest).modifyHead (src ++ ·) := by
  have hrest := pieces_current [d] .plain (Statement.depthAfter depth [t]) src.reverse rest
  rw [List.reverse_reverse] at hrest
  rw [pieces_token hs h ht, List.append_nil, hrest]
  rfl

/-! ## The pieces of a stretch of text -/

/-- The first piece is what the text begins with. -/
theorem exists_first_piece (hs : Separator s d) {cs rest : List Char} {ts : List Token} (h : Scans cs ts rest)
    (hts : ∀ t ∈ ts, PlainName t) (depth : Nat) :
    ∃ first others more, pieces [d] .plain depth [] cs = first :: others ∧ cs = first ++ more := by
  induction h generalizing depth with
  | stop => exact ⟨[], [], [], rfl, rfl⟩
  | @space c cs rest ts hc _ ih =>
    obtain ⟨first, others, more, hpieces, rfl⟩ := ih hts depth
    exact ⟨c :: first, others, more, by rw [pieces_space hs hc, hpieces]; rfl, rfl⟩
  | @comment body cs rest ts hbody hline _ ih =>
    obtain ⟨first, others, more, hpieces, rfl⟩ := ih hts depth
    exact ⟨'-' :: '-' :: body ++ first, others, more, by rw [pieces_comment hbody hline.of_append, hpieces]; rfl, by simp⟩
  | @token src cs rest t ts hspells _ ih =>
    have hspells := hspells.of_append
    rw [pieces_spelled hs hspells (hts t List.mem_cons_self)]
    split
    · exact ⟨[], _, _, rfl, rfl⟩
    · obtain ⟨first, others, more, hpieces, rfl⟩ := ih (fun t ht => hts t (List.mem_cons_of_mem _ ht)) _
      exact ⟨src ++ first, others, more, by rw [hpieces]; rfl, by simp⟩

theorem pieces_ne_nil (hs : Separator s d) {cs rest : List Char} {ts : List Token} (h : Scans cs ts rest)
    (hts : ∀ t ∈ ts, PlainName t) (depth : Nat) : pieces [d] .plain depth [] cs ≠ [] := by
  obtain ⟨first, others, more, hpieces, -⟩ := exists_first_piece hs h hts depth
  simp [hpieces]

theorem pieces_gap (hs : Separator s d) {cs rest : List Char} (h : Scans cs [] rest) (depth : Nat) :
    pieces [d] .plain depth [] cs = [cs] := by
  generalize hts : [] = ts at h
  induction h with
  | stop => rfl
  | space hc _ ih => rw [pieces_space hs hc, ih hts, List.modifyHead_cons]
  | comment hbody hline _ ih =>
    rw [pieces_comment hbody hline.of_append, ih hts, List.modifyHead_cons]
    rfl
  | token => cases hts

/-- The pieces of two stretches of text, one behind the other: the last of the first is one with the first
of the second. -/
theorem pieces_append (hs : Separator s d) {cs rest : List Char} {ts : List Token} (h : Scans cs ts rest)
    (hts : ∀ t ∈ ts, PlainName t) (depth : Nat) :
    pieces [d] .plain depth [] (cs ++ rest) =
      glue (pieces [d] .plain depth [] cs) (pieces [d] .plain (Statement.depthAfter depth ts) [] rest) := by
  induction h generalizing depth with
  | stop => exact (glue_nil _).symm
  | @space c cs rest ts hc hscans ih =>
    rw [List.cons_append, pieces_space hs hc, pieces_space hs hc, ih hts]
    exact (glue_modifyHead [c] (pieces_ne_nil hs hscans hts depth) _).symm
  | @comment body cs rest ts hbody hline hscans ih =>
    rw [List.cons_append, List.cons_append, List.append_assoc, pieces_comment hbody hline,
      pieces_comment hbody hline.of_append, ih hts]
    exact (glue_modifyHead _ (pieces_ne_nil hs hscans hts depth) _).symm
  | @token src cs rest t ts hspells hscans ih =>
    have hothers : ∀ t ∈ ts, PlainName t := fun t ht => hts t (List.mem_cons_of_mem _ ht)
    have hdepth : Statement.depthAfter depth (t :: ts) = Statement.depthAfter (Statement.depthAfter depth [t]) ts :=
      Statement.depthAfter_append depth [t] ts
    rw [List.append_assoc, pieces_spelled hs hspells (hts t List.mem_cons_self),
      pieces_spelled hs hspells.of_append (hts t List.mem_cons_self), hdepth]
    split
    · rename_i hcut
      obtain ⟨rfl, rfl⟩ := hcut
      rw [glue_cons (pieces_ne_nil hs hscans hothers 0), ih hothers, depthAfter_separator hs]
    · rw [ih hothers]
      exact (glue_modifyHead src (pieces_ne_nil hs hscans hothers _) _).symm

theorem forall₂_modifyHead {α β : Type} {R : α → β → Prop} {f : α → α} {g : β → β} {xs : List α} {ys : List β}
    (h : List.Forall₂ R xs ys) (hhead : ∀ x ∈ xs.head?, ∀ y, R x y → R (f x) (g y)) :
    List.Forall₂ R (xs.modifyHead f) (ys.modifyHead g) := by
  cases h with
  | nil => exact .nil
  | cons hx hxs => exact .cons (hhead _ rfl _ hx) hxs

/-- Each piece holds one run of tokens. -/
theorem pieces_runs (hs : Separator s d) {cs rest : List Char} {ts : List Token} (h : Scans cs ts rest)
    (hts : ∀ t ∈ ts, PlainName t) (depth : Nat) :
    List.Forall₂ (fun piece run => Scans piece run []) (pieces [d] .plain depth [] cs) (runs s depth ts) := by
  -- What a first piece holds stands in front of the rest of that piece only.
  have hfirst {cs rest : List Char} {ts : List Token} (h : Scans cs ts rest) (hts : ∀ t ∈ ts, PlainName t) (depth : Nat) :
      ∀ first ∈ (pieces [d] .plain depth [] cs).head?, ∃ more, cs = first ++ more := by
    obtain ⟨first, others, more, hpieces, hcs⟩ := exists_first_piece hs h hts depth
    rw [hpieces]
    intro x hx
    obtain rfl := Option.some.inj hx
    exact ⟨more, hcs⟩
  induction h generalizing depth with
  | stop => exact .cons .stop .nil
  | @space c cs rest ts hc _ ih =>
    rw [pieces_space hs hc, show runs s depth ts = (runs s depth ts).modifyHead id by simp]
    exact forall₂_modifyHead (ih hts depth) fun _ _ _ hscans => .space hc hscans
  | @comment body cs rest ts hbody hline hscans ih =>
    rw [pieces_comment hbody hline.of_append, show runs s depth ts = (runs s depth ts).modifyHead id by simp]
    refine forall₂_modifyHead (ih hts depth) fun first hmem run hrun => ?_
    obtain ⟨more, rfl⟩ := hfirst hscans hts depth first hmem
    rw [List.append_assoc] at hline
    exact .comment hbody (by rw [List.append_nil]; exact hline.of_append) hrun
  | @token src cs rest t ts hspells hscans ih =>
    have hothers : ∀ t ∈ ts, PlainName t := fun t ht => hts t (List.mem_cons_of_mem _ ht)
    rw [pieces_spelled hs hspells.of_append (hts t List.mem_cons_self), runs]
    split
    · exact .cons .stop (ih hothers 0)
    · refine forall₂_modifyHead (ih hothers _) fun first hmem run hrun => ?_
      obtain ⟨more, rfl⟩ := hfirst hscans hothers _ first hmem
      rw [List.append_assoc] at hspells
      exact .token (by rw [List.append_nil]; exact hspells.of_append) hrun

theorem exists_scans_of_mem_pieces (hs : Separator s d) {cs rest : List Char} {ts : List Token} (h : Scans cs ts rest)
    (hts : ∀ t ∈ ts, PlainName t) {piece : List Char} (hpiece : piece ∈ pieces [d] .plain 0 [] cs) :
    ∃ run, Scans piece run [] := by
  obtain ⟨run, -, hscans⟩ := exists_of_forall₂ (pieces_runs hs h hts 0) hpiece
  exact ⟨run, hscans⟩

theorem forall₂_middle {α β : Type} {R : α → β → Prop} {as as' : List α} {bs bs' : List β} {a : α} {b : β}
    (h : List.Forall₂ R (as ++ a :: as') (bs ++ b :: bs')) (hlength : as.length = bs.length) : R a b := by
  have hdrop := List.forall₂_drop_append _ _ _ h
  rw [← hlength, List.drop_left] at hdrop
  exact (List.forall₂_cons.mp hdrop).1

/-- The piece in which one stretch of text ends and the next begins. What separates the two stands in it, and
does not change its tokens. -/
theorem exists_middle_piece (hs : Separator s d) {front rest : List Char} {ts us : List Token} (h : Scans front ts [])
    (hrest : Scans rest us []) (hts : ∀ t ∈ ts, PlainName t) (hus : ∀ t ∈ us, PlainName t) :
    ∃ before piece piece' behind run run', pieces [d] .plain 0 [] front = before ++ [piece] ∧
      (runs s 0 ts).getLast? = some run ∧ run ++ run' ∈ runs s 0 (ts ++ us) ∧ Scans piece run [] ∧ Scans piece' run' [] ∧
      ∀ gap, Scans gap [] rest → Scans front ts (gap ++ rest) →
        pieces [d] .plain 0 [] (front ++ (gap ++ rest)) = before ++ (piece ++ (gap ++ piece')) :: behind ∧
          Scans (piece ++ (gap ++ piece')) (run ++ run') [] := by
  have hfronts := pieces_runs hs h hts 0
  have hbehinds := pieces_runs hs hrest hus (Statement.depthAfter 0 ts)
  obtain ⟨before, piece, hbefore⟩ := (List.eq_nil_or_concat _).resolve_left (pieces_ne_nil hs h hts 0)
  obtain ⟨runsBefore, run, hrunsBefore⟩ := (List.eq_nil_or_concat _).resolve_left (runs_ne_nil s 0 ts)
  obtain ⟨piece', behind, hbehind⟩ := List.exists_cons_of_ne_nil (pieces_ne_nil hs hrest hus (Statement.depthAfter 0 ts))
  obtain ⟨run', runsBehind, hrunsBehind⟩ := List.exists_cons_of_ne_nil (runs_ne_nil s (Statement.depthAfter 0 ts) us)
  rw [List.concat_eq_append] at hbefore hrunsBefore
  rw [hbefore, hrunsBefore] at hfronts
  rw [hbehind, hrunsBehind] at hbehinds
  have hlength : before.length = runsBefore.length := by simpa using hfronts.length_eq
  have hruns : runs s 0 (ts ++ us) = runsBefore ++ (run ++ run') :: runsBehind := by
    rw [runs_append hs, hrunsBefore, hrunsBehind, glue_concat]
  refine ⟨before, piece, piece', behind, run, run', hbefore, by simp [hrunsBefore], by simp [hruns],
    forall₂_middle (R := fun piece run => Scans piece run []) hfronts hlength, (List.forall₂_cons.mp hbehinds).1,
    fun gap hgap hfront => ?_⟩
  have hwhole : pieces [d] .plain 0 [] (front ++ (gap ++ rest)) = before ++ (piece ++ (gap ++ piece')) :: behind := by
    have hgaps : pieces [d] .plain (Statement.depthAfter 0 ts) [] (gap ++ rest) =
        glue [gap] (pieces [d] .plain (Statement.depthAfter 0 ts) [] rest) := by
      rw [pieces_append hs hgap (by simp), pieces_gap hs hgap]
      rfl
    rw [pieces_append hs hfront hts, hbefore, hgaps, hbehind, glue, List.modifyHead_cons, glue_concat]
  have hall := pieces_runs hs (hfront.join (hgap.join hrest))
    (fun t ht => (List.mem_append.mp ht).elim (hts t) (hus t)) 0
  rw [hwhole, List.nil_append, hruns] at hall
  exact ⟨hwhole, forall₂_middle (R := fun piece run => Scans piece run []) hall hlength⟩

end

/-! ## The statements of a text -/

/-- The runs are the tokens between top-level symbols of the kind. -/
theorem runs_eq_splitOnP {s : Symbol} {d : Char} (hs : Separator s d) (depth : Nat) (xs : List Lexeme) :
    runs s depth (xs.map (·.token)) =
      ((withDepth depth xs).splitOnP fun (x, depth) => x.isSymbol s && depth == 0).map (·.map (·.1.token)) := by
  induction xs generalizing depth with
  | nil => rfl
  | cons x xs ih =>
    have hmap (p : Lexeme × Nat) (yss : List (List (Lexeme × Nat))) :
        (yss.modifyHead (p :: ·)).map (·.map (·.1.token)) = (yss.map (·.map (·.1.token))).modifyHead (p.1.token :: ·) := by
      cases yss <;> rfl
    have hright : s ≠ .rightParen := by cases hs <;> decide
    have hleft : s ≠ .leftParen := by cases hs <;> decide
    rw [List.map_cons, runs, withDepth]
    by_cases hr : x.token = .symbol .rightParen
    · simp [hr, Lexeme.isSymbol, List.splitOnP_cons_eq_if_modifyHead, Ne.symm hright, hmap, ih, Statement.depthAfter]
    · by_cases hl : x.token = .symbol .leftParen
      · simp [hl, Lexeme.isSymbol, List.splitOnP_cons_eq_if_modifyHead, Ne.symm hleft, hmap, ih, Statement.depthAfter]
      · have hdepth := Statement.depthAfter_other hr hl depth []
        by_cases hx : x.token = .symbol s ∧ depth = 0
        · obtain ⟨hx, rfl⟩ := hx
          simp [hx, Lexeme.isSymbol, List.splitOnP_cons_eq_if_modifyHead, hright, hleft, ih]
        · simp [hr, hl, hx, Lexeme.isSymbol, List.splitOnP_cons_eq_if_modifyHead, hmap, ih, hdepth, Statement.depthAfter]

/-- What may be read piece by piece, white space around each piece aside, gives the tokens run by run. -/
theorem mapM_lex {raw : List (List Char)} {rs : List (List Token)}
    (h : List.Forall₂ (fun piece run => Scans piece run []) raw rs) :
    ∃ yss, ((raw.map Text.trim).filter (!·.isEmpty)).mapM Token.lex = .ok yss ∧
      (yss.map (·.map (·.token))).filter (!·.isEmpty) = rs.filter (!·.isEmpty) := by
  induction h with
  | nil => exact ⟨[], rfl, rfl⟩
  | @cons piece run raw rs hpiece _ ih =>
    obtain ⟨yss, hyss, hruns⟩ := ih
    by_cases hempty : Text.trim piece = []
    · have hrun : run = [] := by
        have htrim := hpiece.trim
        rw [hempty] at htrim
        exact htrim.tokens_of_nil
      refine ⟨yss, ?_, ?_⟩
      · simpa [hempty] using hyss
      · simpa [hrun] using hruns
    · obtain ⟨ys, hys, hmap⟩ := hpiece.trim.lex
      refine ⟨ys :: yss, ?_, ?_⟩
      · simp [hempty, List.mapM_cons, hys, hyss]
        rfl
      · simp [hmap, List.filter_cons, hruns]

/-- Cutting a text into statements agrees with cutting its tokens at top-level semicolons: every statement
is accepted by the lexer, and apart from those without tokens they hold the runs of tokens between the
semicolons, in order. -/
theorem split_agrees_with_lexer {text : List Char} {xs : List Lexeme} (hlex : Token.lex text = .ok xs)
    (hnames : ∀ x ∈ xs, ∀ name, x.token = .identifier name → '\\' ∉ name.toList) :
    ∃ yss, (split [';'] text).mapM Token.lex = .ok yss ∧
      (yss.map (·.map (·.token))).filter (!·.isEmpty) =
        (((withDepth 0 xs).splitOnP fun (x, depth) => x.isSymbol .semicolon && depth == 0).map
          (·.map (·.1.token))).filter (!·.isEmpty) := by
  have hplain : ∀ t ∈ xs.map (·.token), PlainName t := by
    intro t ht
    obtain ⟨x, hx, rfl⟩ := List.mem_map.mp ht
    exact hnames x hx
  rw [← runs_eq_splitOnP .semicolon]
  exact mapM_lex (pieces_runs .semicolon (scans_of_lexFrom hlex) hplain 0)

/-- A semicolon ends a statement neither in a text or a comment nor between parentheses. -/
theorem split_agrees_with_lexer_nested :
    ∃ xs, Token.lex "SELECT ';';--;\n(a;b)".toList = .ok xs ∧
      (∀ x ∈ xs, ∀ name, x.token = .identifier name → '\\' ∉ name.toList) ∧
      ∃ yss, (split [';'] "SELECT ';';--;\n(a;b)".toList).mapM Token.lex = .ok yss ∧
        (yss.map (·.map (·.token))).filter (!·.isEmpty) =
          [[.keyword .select "SELECT", .text ";"],
            [.symbol .leftParen, .identifier "a", .symbol .semicolon, .identifier "b", .symbol .rightParen]] := by
  have hlex : Token.lex "SELECT ';';--;\n(a;b)".toList = .ok
      [⟨.keyword .select "SELECT", 0, 6, 1⟩, ⟨.text ";", 7, 3, 1⟩, ⟨.symbol .semicolon, 10, 1, 1⟩,
        ⟨.symbol .leftParen, 15, 1, 2⟩, ⟨.identifier "a", 16, 1, 2⟩, ⟨.symbol .semicolon, 17, 1, 2⟩,
        ⟨.identifier "b", 18, 1, 2⟩, ⟨.symbol .rightParen, 19, 1, 2⟩] := by cbv
  have hnames : ∀ x ∈ ([⟨.keyword .select "SELECT", 0, 6, 1⟩, ⟨.text ";", 7, 3, 1⟩, ⟨.symbol .semicolon, 10, 1, 1⟩,
      ⟨.symbol .leftParen, 15, 1, 2⟩, ⟨.identifier "a", 16, 1, 2⟩, ⟨.symbol .semicolon, 17, 1, 2⟩,
      ⟨.identifier "b", 18, 1, 2⟩, ⟨.symbol .rightParen, 19, 1, 2⟩] : List Lexeme), ∀ name,
      x.token = .identifier name → '\\' ∉ name.toList := by simp
  obtain ⟨yss, hyss, hruns⟩ := split_agrees_with_lexer hlex hnames
  exact ⟨_, hlex, hnames, yss, hyss, hruns.trans (by decide)⟩

end JsonTables.TopLevel
