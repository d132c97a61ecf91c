/-
  JsonTables.Proofs.Statement.RoundTrip — a statement that selects a printed expression selects it.

  The tokens of the printed text are a sentence of the grammar, none of them is the word `WITH`, and the
  text has nothing at its ends that would be cut off. So the parser, which agrees with the grammar, gives
  the plan of that sentence, unless an integer has too many digits to be read. That a text is printed of one
  thing only does not depend on the parser: it is made of one row of tokens, and these say one thing.

  Proved:
  - `selecting_injective`: no two things are printed alike.
  - `parse_render`: printing and parsing back is the identity up to the limit on digits, beyond which nothing is printed.
-/

import JsonTables.Proofs.Expr.RoundTrip
import JsonTables.Proofs.Statement.Exact

namespace JsonTables.Statement

open Grammar Token

/-! ## The word `WITH` -/

/-- No token is the word that starts hints. -/
def WithFree (ts : List Token) : Prop := ∀ w, .keyword .with_ w ∉ ts

theorem composable_withFree : Composable WithFree where
  nil := fun _ => List.not_mem_nil
  single := by
    intro t ht w hw
    obtain rfl := List.mem_singleton.mp hw
    cases ht
  append := by
    intro ts us hts hus w hw
    rcases List.mem_append.mp hw with hw | hw
    · exact hts w hw
    · exact hus w hw
  paren := by
    intro ts hts w hw
    simp only [List.mem_append, List.mem_singleton, reduceCtorEq, false_or, or_false] at hw
    exact hts w hw

/-! ## The statement -/

/-- The statement that selects one thing from a table. -/
def selecting (s : Selected) : String := "SELECT " ++ s.render ++ " FROM t"

theorem body_eq {c d : Char} (hc : Text.isBlank c = false) (hd : (d = ';' || Text.isBlank d) = false) (cs : List Char) :
    body (c :: (cs ++ [d])) = c :: (cs ++ [d]) := by
  have hstart : Text.trimStart (c :: (cs ++ [d])) = c :: cs ++ [d] := by
    simp [Text.trimStart, hc]
  rw [body, hstart, Text.dropEndWhile, List.reverse_append]
  simp only [List.reverse_singleton, List.singleton_append, List.dropWhile_cons, hd]
  simp

theorem lexed_selecting {s : Selected} {ts : List Token} (h : Writes s.render ts) :
    Lexed (selecting s).toList ([.keyword .select "SELECT"] ++ ts ++ [.keyword .from_ "FROM", .identifier "t"]) := by
  have hselect : Writes "SELECT" [.keyword .select "SELECT"] := writes_word (by decide) (by decide)
  have hfrom : Writes "FROM" [.keyword .from_ "FROM"] := writes_word (by decide) (by decide)
  have htable : Lexed ['t'] [.identifier "t"] := @lexed_segment "t" (by decide) [] [] nofun .nil
  have hend : Lexed (' ' :: ("FROM".toList ++ [' ', 't'])) [.keyword .from_ "FROM", .identifier "t"] :=
    lexed_blank (hfrom _ _ (stops_cons (by simp) _) (lexed_blank htable))
  have hitem := h _ _ (stops_cons (by simp) _) hend
  simpa [selecting] using hselect _ _ (stops_cons (by simp) _) (lexed_blank hitem)

theorem sentence_selecting {s : Selected} {ts : List Token} (h : ItemContent ts s) :
    Sentence ([.keyword .select "SELECT"] ++ ts ++ [.keyword .from_ "FROM", .identifier "t"])
      { Plan.blank with select := [⟨s, none⟩], table := "t" } := by
  have hselect := Select.mk "SELECT" "FROM" .absent (.single (.bare h)) (.column (.single "t")) .none .absent
    .absent .absent .absent .absent .absent
  simpa [Plan.blank] using Sentence.bare hselect

theorem body_selecting (s : Selected) : body (selecting s).toList = (selecting s).toList := by
  have htext : (selecting s).toList = 'S' :: ("ELECT ".toList ++ s.render.toList ++ " FROM ".toList ++ ['t']) := by
    simp [selecting]
  rw [htext]
  exact body_eq rfl rfl _

/-- No two things are printed alike. -/
theorem selecting_injective {s s' : Selected} (h : s.Printable) (h' : s'.Printable) (heq : s.render = s'.render) :
    s = s' := by
  obtain ⟨ts, hw, hc⟩ := Selected.reads h
  obtain ⟨us, hw', hc'⟩ := Selected.reads h'
  have htokens : Lexed (selecting s).toList _ := lexed_selecting hw
  rw [selecting, heq] at htokens
  have hsentence := sentence_selecting hc
  rw [htokens.unique (lexed_selecting hw')] at hsentence
  simpa using congrArg Plan.select (sentence_unique hsentence (sentence_selecting hc'))

/-! ## Integers -/

/-- No integer among the literals has too many digits. -/
def Short (s : Selected) : Prop := ∀ n ∈ s.integers, (Number.int n).withinDigits maxDigits = true

theorem withinDigits_iff {n : Int} : (Number.int n).withinDigits maxDigits = true ↔ ¬TooLong n.natAbs := by
  rw [Number.withinDigits, decide_eq_true_eq, TooLong, Nat.not_lt]

/-- The tokens of the statement have the integers of what is selected. -/
theorem integers_selecting {s : Selected} {ts : List Token} (h : ItemContent ts s) :
    Token.integers ([.keyword .select "SELECT"] ++ ts ++ [.keyword .from_ "FROM", .identifier "t"]) =
      s.integers.map Int.natAbs := by
  rw [integers_append, integers_append, h.integers_eq]
  exact List.append_nil _

theorem Short.not_tooLong {s : Selected} (h : Short s) {ts : List Token} (hc : ItemContent ts s) :
    ∀ k ∈ Token.integers ([.keyword .select "SELECT"] ++ ts ++ [.keyword .from_ "FROM", .identifier "t"]),
      ¬TooLong k := by
  rw [integers_selecting hc]
  exact List.forall_mem_map.mpr fun n hn => withinDigits_iff.mp (h n hn)

theorem parse_selecting {s : Selected} (h : s.Printable) (hshort : Short s) :
    parse (selecting s) = .ok { Plan.blank with select := [⟨s, none⟩], table := "t" } := by
  obtain ⟨ts, hw, hc⟩ := Selected.reads h
  obtain ⟨xs, hlex, htokens⟩ := (lexed_selecting hw).lexFrom (hshort.not_tooLong hc) 0 1
  have hfree : WithFree (xs.map (·.token)) := by
    rw [htokens]
    have hP := composable_withFree
    exact hP.append (hP.append (hP.single rfl) (hP.content hc)) (hP.pair rfl rfl)
  have hwith : ∀ x ∈ xs, x.isKeyword .with_ = false := by
    intro x hx
    unfold Lexeme.isKeyword
    split
    · rename_i k w hk
      refine beq_eq_false_iff_ne.mpr ?_
      intro he
      subst he
      exact hfree w (hk ▸ List.mem_map_of_mem hx)
    · rfl
  rw [← body_selecting] at hlex
  refine (parse_eq_ok hlex hwith).mpr ?_
  rw [htokens]
  exact sentence_selecting hc

/-- The lexer is the first to see the text, and it stops at an integer of too many digits. -/
theorem parse_eq_overlong {sql : String} {digits : Nat} (hne : body sql.toList ≠ [])
    (h : Token.lex (body sql.toList) = .error (.overlong digits)) : parse sql = .error (.overlong digits) := by
  have hextract : Hint.extract (body sql.toList) = .error (.overlong digits) := by
    rw [Hint.extract, h]
    rfl
  simp only [parse, List.isEmpty_eq_false_iff.mpr hne, hextract]
  rfl

theorem parse_selecting_overlong {s : Selected} (h : s.Printable) (hlong : ¬Short s) :
    ∃ n ∈ s.integers, (Number.int n).withinDigits maxDigits = false ∧
      parse (selecting s) = .error (.overlong (Nat.toDigits 10 n.natAbs).length) := by
  obtain ⟨ts, hw, hc⟩ := Selected.reads h
  obtain ⟨n, hn, hdigits⟩ : ∃ n ∈ s.integers, TooLong n.natAbs := by
    simpa only [Short, withinDigits_iff, not_forall, not_not, exists_prop] using hlong
  have hmem : n.natAbs ∈ Token.integers _ := (integers_selecting hc).symm ▸ List.mem_map_of_mem hn
  obtain ⟨j, hj, htooLong, hstops⟩ := (lexed_selecting hw).lexFrom_overlong hmem hdigits 0 1
  rw [integers_selecting hc] at hj
  obtain ⟨m, hm, rfl⟩ := List.mem_map.mp hj
  refine ⟨m, hm, Bool.eq_false_iff.mpr fun hshort => withinDigits_iff.mp hshort htooLong, parse_eq_overlong ?_ ?_⟩
  · rw [body_selecting]
    simp [selecting]
  · rw [body_selecting]
    exact hstops

theorem toText_of_short {s : Selected} (h : Short s) : s.toText = .ok s.render := if_pos (List.all_eq_true.mpr h)

theorem toText_of_not_short {s : Selected} (h : ¬Short s) : s.toText = .error .digits :=
  if_neg fun hall => h (List.all_eq_true.mp hall)

/-- Printing an expression, or a rank over a window, and parsing it back is the identity, if no integer in it has too
many digits; else it is not printed, and what would be printed is refused for one of its integers. No two of them are
printed alike. -/
theorem parse_render :
    (∀ s : Selected, s.Printable → (∀ n ∈ s.integers, (Number.int n).withinDigits maxDigits = true) →
      ∃ text, s.toText = .ok text ∧
        parse ("SELECT " ++ text ++ " FROM t") = .ok { Plan.blank with select := [⟨s, none⟩], table := "t" }) ∧
    (∀ s : Selected, s.Printable → (∃ n ∈ s.integers, (Number.int n).withinDigits maxDigits = false) →
      s.toText = .error .digits ∧ ∃ n ∈ s.integers, (Number.int n).withinDigits maxDigits = false ∧
        parse ("SELECT " ++ s.render ++ " FROM t") = .error (.overlong (Nat.toDigits 10 n.natAbs).length)) ∧
    ∀ (s s' : Selected) (text : String), s.Printable → s'.Printable → s.toText = .ok text → s'.toText = .ok text →
      s = s' := by
  refine ⟨fun s h hshort => ⟨s.render, toText_of_short hshort, parse_selecting h hshort⟩, fun s h hlong => ?_,
    fun s s' text h h' htext htext' => ?_⟩
  · obtain ⟨n, hn, hdigits⟩ := hlong
    have hlong : ¬Short s := fun hshort => Bool.false_ne_true (hdigits.symm.trans (hshort n hn))
    exact ⟨toText_of_not_short hlong, parse_selecting_overlong h hlong⟩
  · have hrender {s : Selected} (h : s.toText = .ok text) : s.render = text := by
      unfold Selected.toText at h
      split at h
      · exact Except.ok.inj h
      · cases h
    exact selecting_injective h h' ((hrender htext).trans (hrender htext').symm)

/-- A rank with a column of reserved words, a call on a text with a quote, and negative numbers in
parentheses behind a minus sign. -/
def quotedRank : Window where
  name := "rank"
  partitionBy := [.column "group.by", .call "left" [.literal (.text "it's"), .literal .null]]
  orderBy := [⟨.binary .sub (.negate (.column "total"))
    (.binary .mul (.literal (.number (.int (-3)))) (.literal (.number (.float (Binary64.ofRatio true 1 2))))), .descending⟩]

theorem parse_render_quotedRank :
    (Selected.window quotedRank).Printable ∧
    (∀ n ∈ (Selected.window quotedRank).integers, (Number.int n).withinDigits maxDigits = true) ∧
    (Selected.window quotedRank).toText =
      .ok "rank() OVER (PARTITION BY `group`.`by`, left('it''s', null) ORDER BY -total - (-3 * -0.5) DESC)" ∧
    parse "SELECT rank() OVER (PARTITION BY `group`.`by`, left('it''s', null) ORDER BY -total - (-3 * -0.5) DESC) FROM t" =
      .ok { Plan.blank with select := [⟨.window quotedRank, none⟩], table := "t" } := by
  have hprintable : (Selected.window quotedRank).Printable := by
    have hrank : IsFunctionName "rank" := ⟨by decide, by decide⟩
    have hleft : IsFunctionName "left" := ⟨by decide, by decide⟩
    have hgroup : (Expr.column "group.by").Printable := by
      unfold Expr.Printable
      decide
    have htotal : (Expr.column "total").Printable := by
      unfold Expr.Printable
      decide
    have htext : (Literal.text "it's").Printable := by
      unfold Literal.Printable
      decide
    have hhalf : (Literal.number (.float (Binary64.ofRatio true 1 2))).Printable :=
      ⟨by decide +kernel, by decide +kernel⟩
    refine ⟨hrank, ⟨hgroup, ⟨hleft, htext, trivial, trivial⟩, trivial⟩, ?_⟩
    intro o ho
    obtain rfl := List.mem_singleton.mp ho
    exact ⟨⟨htotal, trivial⟩, trivial, hhalf⟩
  have hshort : ∀ n ∈ (Selected.window quotedRank).integers, (Number.int n).withinDigits maxDigits = true := by
    have hintegers : (Selected.window quotedRank).integers = [-3] := rfl
    rw [hintegers]
    decide
  have hrender : (Selected.window quotedRank).render =
      "rank() OVER (PARTITION BY `group`.`by`, left('it''s', null) ORDER BY -total - (-3 * -0.5) DESC)" := by
    decide +kernel
  have hsql : "SELECT " ++ (Selected.window quotedRank).render ++ " FROM t" =
      "SELECT rank() OVER (PARTITION BY `group`.`by`, left('it''s', null) ORDER BY -total - (-3 * -0.5) DESC) FROM t" := by
    decide +kernel
  obtain ⟨text, htext, hparse⟩ := parse_render.1 _ hprintable hshort
  have hwritten := toText_of_short hshort
  rw [hwritten] at htext
  cases htext
  rw [hsql] at hparse
  rw [hrender] at hwritten
  exact ⟨hprintable, hshort, hwritten, hparse⟩

/-- The integer of 4301 digits, which is of the form that can be printed, is not, and its text is refused. -/
theorem parse_too_long :
    (Selected.expr (.literal (.number (.int (10 ^ 4300 : Nat))))).Printable ∧
      (Selected.expr (.literal (.number (.int (10 ^ 4300 : Nat))))).toText = .error .digits ∧
      parse ("SELECT " ++ (Selected.expr (.literal (.number (.int (10 ^ 4300 : Nat))))).render ++ " FROM t") =
        .error (.overlong 4301) := by
  have hlength := Binary64.length_toDigits_ten_pow 4300
  have hlong : ¬Short (.expr (.literal (.number (.int (10 ^ 4300 : Nat))))) := by
    intro h
    have hdigits := h _ List.mem_cons_self
    rw [withinDigits_iff, Int.natAbs_natCast, TooLong, hlength] at hdigits
    exact hdigits (by decide)
  obtain ⟨n, hn, -, hparse⟩ := parse_selecting_overlong (s := .expr (.literal (.number (.int (10 ^ 4300 : Nat))))) trivial hlong
  obtain rfl := List.mem_singleton.mp hn
  rw [Int.natAbs_natCast, hlength] at hparse
  exact ⟨trivial, toText_of_not_short hlong, hparse⟩

end JsonTables.Statement
