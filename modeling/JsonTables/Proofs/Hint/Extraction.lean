/-
  JsonTables.Proofs.Hint.Extraction — what is left of a text whose hints are extracted, and the texts whose hints
  are not.

  The text is cut in front of its first `WITH` outside parentheses. White space at the cut goes too, and the lexer
  reads what is left as it did before. A list that does not close where its parentheses pair up, or that something
  else follows than semicolons, is refused, and no other.

  Proved:
  - `openAfter_eq_zero_iff`: a list closes behind its opening parenthesis where the parentheses inside are in pairs.
  - `extract_at_iff`: the hints behind the first such word are extracted if a list stands there.
  - `lex_left`: the tokens that are left, in their places.
  - `extract_cuts`: the tokens that are left and the hints, and when there are none for want of a list.
-/

import JsonTables.Proofs.Statement.HintList
import JsonTables.Proofs.Token.Places

namespace JsonTables.Hint

open Statement Token

/-! ## Parentheses in pairs -/

/-- Tokens with their parentheses in pairs. -/
inductive Paired : List Token → Prop
  | nil : Paired []
  | other {t : Token} {ts : List Token} : t ≠ .symbol .leftParen → t ≠ .symbol .rightParen → Paired ts → Paired (t :: ts)
  | group {us ts : List Token} : Paired us → Paired ts →
      Paired (.symbol .leftParen :: (us ++ .symbol .rightParen :: ts))

/-- Tokens that close so many parentheses from outside, one behind the other. -/
def Closes : Nat → List Token → Prop
  | 0, ts => Paired ts
  | depth + 1, ts => ∃ us vs, ts = us ++ .symbol .rightParen :: vs ∧ Paired us ∧ Closes depth vs

theorem Paired.openAfter {ts : List Token} (h : Paired ts) (depth : Nat) : openAfter depth ts = some depth := by
  induction h generalizing depth with
  | nil => rfl
  | other hl hr _ ih => rw [openAfter_other hr hl, ih]
  | group _ _ ihinside ih => simp [Statement.openAfter, openAfter_append, ihinside, ih]

theorem Closes.other {t : Token} (hl : t ≠ .symbol .leftParen) (hr : t ≠ .symbol .rightParen) {depth : Nat}
    {ts : List Token} (h : Closes depth ts) : Closes depth (t :: ts) := by
  cases depth with
  | zero => exact Paired.other hl hr h
  | succ depth =>
    obtain ⟨us, vs, rfl, hus, hvs⟩ := h
    exact ⟨t :: us, vs, rfl, .other hl hr hus, hvs⟩

/-- A parenthesis that opens takes the next one that closes. -/
theorem Closes.group {depth : Nat} {ts : List Token} (h : Closes (depth + 1) ts) :
    Closes depth (.symbol .leftParen :: ts) := by
  obtain ⟨us, vs, rfl, hus, hvs⟩ := h
  cases depth with
  | zero => exact Paired.group hus hvs
  | succ depth =>
    obtain ⟨us', vs', rfl, hus', hvs'⟩ := hvs
    exact ⟨.symbol .leftParen :: (us ++ .symbol .rightParen :: us'), vs', by simp, .group hus hus', hvs'⟩

theorem closes_of_openAfter {depth : Nat} {ts : List Token} (h : openAfter depth ts = some 0) : Closes depth ts := by
  induction ts generalizing depth with
  | nil =>
    obtain rfl : depth = 0 := Option.some.inj h
    exact .nil
  | cons t ts ih =>
    by_cases hr : t = .symbol .rightParen
    · subst hr
      cases depth with
      | zero => cases h
      | succ depth => exact ⟨[], ts, rfl, .nil, ih h⟩
    · by_cases hl : t = .symbol .leftParen
      · subst hl
        exact (ih (show openAfter (depth + 1) ts = some 0 from h)).group
      · rw [openAfter_other hr hl] at h
        exact (ih h).other hl hr

/-- The count of open parentheses returns to none, and never falls below, exactly where they are in pairs. -/
theorem openAfter_eq_zero_iff {ts : List Token} : openAfter 0 ts = some 0 ↔ Paired ts :=
  ⟨closes_of_openAfter, fun h => h.openAfter 0⟩

/-! ## Where a text is cut -/

/-- The first word `WITH` outside parentheses, behind these lexemes. -/
structure FirstWith (before : List Lexeme) (word : Lexeme) : Prop where
  isWith : ∃ w, word.token = .keyword .with_ w
  outside : depthAfter 0 (before.map (·.token)) = 0
  first : NoWith (before.map (·.token))

/-- The lexemes in front of the first `WITH` outside parentheses, all if there is none, and those from it on. -/
inductive Cut : List Lexeme → List Lexeme → List Lexeme → Prop
  | whole {xs : List Lexeme} : NoWith (xs.map (·.token)) → Cut xs xs []
  | «at» {before behind : List Lexeme} {word : Lexeme} : FirstWith before word →
      Cut (before ++ word :: behind) before (word :: behind)

/-- One group in parentheses, from `opening` to `close`, and nothing but semicolons behind it. -/
inductive IsList : List Lexeme → Lexeme → Lexeme → Prop
  | mk {inside ends : List Lexeme} {opening close : Lexeme} : opening.token = .symbol .leftParen →
      Paired (inside.map (·.token)) → close.token = .symbol .rightParen → (∀ x ∈ ends, x.token = .symbol .semicolon) →
      IsList (opening :: (inside ++ close :: ends)) opening close

theorem exists_cut (xs : List Lexeme) : ∃ before behind, Cut xs before behind := by
  by_cases hwith : NoWith (xs.map (·.token))
  · exact ⟨xs, [], .whole hwith⟩
  · obtain ⟨before, word, w, behind, rfl, hword, hfirst, hdepth⟩ := exists_first_with hwith
    exact ⟨before, word :: behind, .at ⟨⟨w, hword⟩, hdepth, hfirst⟩⟩

theorem Cut.noWith {xs before behind : List Lexeme} (h : Cut xs before behind) : NoWith (before.map (·.token)) := by
  cases h with
  | whole hwith => exact hwith
  | «at» hword => exact hword.first

/-- The hints of a list, by the text between its parentheses. -/
theorem hints_of_text (inside : List Char) :
    (listed inside).hints = Hints.ofNames ((TopLevel.split [','] inside).map String.ofList) := by
  have hpieces : TopLevel.split [','] inside = ((TopLevel.split [','] inside).map String.ofList).map String.toList := by
    simp [Function.comp_def]
  rw [listed, hpieces, hints_addAll, ← hpieces]
  simp [Hints.join, Hints.empty]

/-- The hints are extracted behind the first `WITH` if a list stands there. -/
theorem extract_at_iff {text : List Char} {before behind : List Lexeme} {word : Lexeme} {x : Extraction}
    (hlex : lex text = .ok (before ++ word :: behind)) (hword : FirstWith before word) :
    extract text = .ok x ↔ ∃ opening close, IsList behind opening close ∧
      x = { listed (Text.slice text (opening.position + 1) close.position) with
        text := Text.trimEnd (text.take word.position) } := by
  obtain ⟨⟨w, hwith⟩, hdepth, hfirst⟩ := hword
  rw [extract_eq_ok_iff hlex hwith hfirst hdepth]
  constructor
  · rintro ⟨opening, inside, close, ends, rfl, hopening, hopen, hclose, hends, hx⟩
    exact ⟨opening, close, .mk hopening (openAfter_eq_zero_iff.mp hopen) hclose hends, hx⟩
  · rintro ⟨opening, close, hlist, hx⟩
    cases hlist with
    | @mk inside ends _ _ hopening hpaired hclose hends =>
      exact ⟨opening, inside, close, ends, rfl, hopening, openAfter_eq_zero_iff.mpr hpaired, hclose, hends, hx⟩

/-! ## What is left -/

/-- What is left holds the tokens in front of the cut, in their places. -/
theorem lex_left {text : List Char} {x : Extraction} {xs before behind : List Lexeme} (hlex : lex text = .ok xs)
    (hcut : Cut xs before behind) (h : extract text = .ok x) : lex x.text = .ok before := by
  cases hcut with
  | whole hwith =>
    obtain rfl := Except.ok.inj (h.symm.trans (extract_of_noWith hlex hwith))
    exact hlex
  | «at» hword =>
    obtain ⟨opening, close, -, rfl⟩ := (extract_at_iff hlex hword).mp h
    exact lex_trimEnd (lex_take hlex)

/-- The extraction leaves the text in front of its first `WITH` outside parentheses, or all of it. The tokens there
are what they were, values and positions included, and extracting from what is left gives it back without hints. The
hints are those that the pieces of the text between the parentheses name, in whatever case. A text that the lexer
accepts is refused exactly if there is such a word and no group in pairs of parentheses follows it, or something
else than semicolons behind the group. -/
theorem extract_cuts (text : List Char) :
    (∀ x, extract text = .ok x → extract x.text = .ok ⟨x.text, Hints.empty, []⟩ ∧
      ∃ xs before behind, lex text = .ok xs ∧ Cut xs before behind ∧ lex x.text = .ok before ∧
        (behind = [] → x.text = text ∧ x.hints = Hints.empty) ∧
        ∀ word list, behind = word :: list → ∃ opening close, IsList list opening close ∧
          x.hints = Hints.ofNames ((TopLevel.split [',']
            (Text.slice text (opening.position + 1) close.position)).map String.ofList)) ∧
    ∀ xs, lex text = .ok xs → ((∃ m, extract text = .error m) ↔
      ∃ before word behind, xs = before ++ word :: behind ∧ FirstWith before word ∧
        ¬∃ opening close, IsList behind opening close) := by
  constructor
  · intro x h
    cases hlex : lex text with
    | error m =>
      rw [extract_eq, hlex] at h
      cases h
    | ok xs =>
      obtain ⟨before, behind, hcut⟩ := exists_cut xs
      have hleft := lex_left hlex hcut h
      refine ⟨extract_of_noWith hleft hcut.noWith, xs, before, behind, rfl, hcut, hleft, ?_, ?_⟩
      · rintro rfl
        cases hcut with
        | whole hwith =>
          obtain rfl := Except.ok.inj (h.symm.trans (extract_of_noWith hlex hwith))
          exact ⟨rfl, rfl⟩
      · rintro word list rfl
        cases hcut with
        | «at» hword =>
          obtain ⟨opening, close, hlist, rfl⟩ := (extract_at_iff hlex hword).mp h
          exact ⟨opening, close, hlist, hints_of_text _⟩
  · intro xs hlex
    constructor
    · rintro ⟨m, hm⟩
      obtain ⟨before, behind, hcut⟩ := exists_cut xs
      cases hcut with
      | whole hwith =>
        rw [extract_of_noWith hlex hwith] at hm
        cases hm
      | @«at» _ behind word hword =>
        refine ⟨before, word, behind, rfl, hword, ?_⟩
        rintro ⟨opening, close, hlist⟩
        have hok := (extract_at_iff hlex hword).mpr ⟨opening, close, hlist, rfl⟩
        rw [hm] at hok
        cases hok
    · rintro ⟨before, word, behind, rfl, hword, hnone⟩
      cases h : extract text with
      | error m => exact ⟨m, rfl⟩
      | ok x =>
        obtain ⟨opening, close, hlist, -⟩ := (extract_at_iff hlex hword).mp h
        exact absurd ⟨opening, close, hlist⟩ hnone

/-- A `WITH` in parentheses in front of a list, and a list that does not close. -/
theorem extract_cuts_nested :
    extract "(with)with(A);".toList = .ok ⟨"(with)".toList, Hints.empty, ["A"]⟩ ∧
      extract "(with)".toList = .ok ⟨"(with)".toList, Hints.empty, []⟩ ∧ ∃ m, extract "with(A".toList = .error m := by
  have hopen (rest : List Char) : piece? '(' rest = some (.token (.symbol .leftParen), 0) := rfl
  have hclose (rest : List Char) : piece? ')' rest = some (.token (.symbol .rightParen), 0) := rfl
  have hend (rest : List Char) : piece? ';' rest = some (.token (.symbol .semicolon), 0) := rfl
  have hnested : piece? 'w' ['i', 't', 'h', ')', 'w', 'i', 't', 'h', '(', 'A', ')', ';'] =
    some (.token (.keyword .with_ "with"), 3) := by decide
  have hword : piece? 'w' ['i', 't', 'h', '(', 'A', ')', ';'] = some (.token (.keyword .with_ "with"), 3) := by decide
  have hname : piece? 'A' [')', ';'] = some (.token (.identifier "A"), 0) := by decide
  have hlex : lex "(with)with(A);".toList = .ok [⟨.symbol .leftParen, 0, 1, 1⟩, ⟨.keyword .with_ "with", 1, 4, 1⟩,
      ⟨.symbol .rightParen, 5, 1, 1⟩, ⟨.keyword .with_ "with", 6, 4, 1⟩, ⟨.symbol .leftParen, 10, 1, 1⟩,
      ⟨.identifier "A", 11, 1, 1⟩, ⟨.symbol .rightParen, 12, 1, 1⟩, ⟨.symbol .semicolon, 13, 1, 1⟩] := by
    simp [lex, lexFrom, isOverlong, hopen, hclose, hnested, hword, hname, hend]
  have hopenWord : piece? 'w' ['i', 't', 'h', '(', 'A'] = some (.token (.keyword .with_ "with"), 3) := by decide
  have hopenName : piece? 'A' [] = some (.token (.identifier "A"), 0) := by decide
  have hopenLex : lex "with(A".toList = .ok ([] ++ ⟨.keyword .with_ "with", 0, 4, 1⟩ ::
      [⟨.symbol .leftParen, 4, 1, 1⟩, ⟨.identifier "A", 5, 1, 1⟩]) := by
    simp [lex, lexFrom, isOverlong, hopen, hopenWord, hopenName]
  have h : extract "(with)with(A);".toList = .ok ⟨"(with)".toList, Hints.empty, ["A"]⟩ := by
    rw [extract_eq, hlex]
    rfl
  refine ⟨h, ((extract_cuts _).1 _ h).1,
    ((extract_cuts _).2 _ hopenLex).mpr ⟨[], _, _, rfl, ⟨⟨"with", rfl⟩, rfl, by simp [NoWith]⟩, ?_⟩⟩
  rintro ⟨opening, close, hlist⟩
  generalize hbehind : [Lexeme.mk (.symbol .leftParen) 4 1 1, ⟨.identifier "A", 5, 1, 1⟩] = behind at hlist
  cases hlist with
  | @mk inside ends _ _ hopening hpaired hclose hends =>
    obtain ⟨-, hrest⟩ := List.cons.inj hbehind
    have hmem : close ∈ [Lexeme.mk (.identifier "A") 5 1 1] := by
      rw [hrest]
      exact List.mem_append_right inside List.mem_cons_self
    rw [List.mem_singleton.mp hmem] at hclose
    cases hclose

end JsonTables.Hint
