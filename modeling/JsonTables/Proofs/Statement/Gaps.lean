/-
  JsonTables.Proofs.Statement.Gaps — what stands between the tokens of a statement.

  The tokens of a sentence do not change when white space or a comment is put between two of them, and
  neither do those in front of a list of hints. Of the text of the list the hints are read themselves, so
  there white space alone may be added. At the end of a statement only white space and semicolons are taken
  off before it is read; behind a comment they are not.

  Proved:
  - `Means.replace_gap`: what stands between two tokens outside the list of hints may be anything that holds none.
  - `Means.insert_space`: white space in the list of hints.
  - `Means.behind`: the semicolons at the end of a statement with more behind them.
  - `parse_of_gap`: the plan of a text with more between two tokens.
-/

import JsonTables.Proofs.Hint

namespace JsonTables.Statement

open Grammar Token

/-! ## Where a text with hints is cut -/

/-- Behind these tokens the list of hints is open. -/
def InHints (ts : List Token) : Prop :=
  ∃ before word inside, ts = before ++ .keyword .with_ word :: .symbol .leftParen :: inside ∧ WithFree before ∧
    (openAfter 0 inside).isSome

/-- The first `WITH` of a row of tokens is one. -/
theorem withFree_unique {as bs as' bs' : List Token} {word word' : String} (has : WithFree as) (has' : WithFree as')
    (h : as ++ .keyword .with_ word :: bs = as' ++ .keyword .with_ word' :: bs') : as = as' ∧ bs = bs' := by
  rcases List.append_eq_append_iff.mp h with ⟨cs, rfl, hcs⟩ | ⟨cs, rfl, hcs⟩
  · cases cs with
    | nil => exact ⟨by simp, (List.cons.inj hcs).2⟩
    | cons c cs =>
      obtain ⟨rfl, -⟩ := List.cons.inj hcs
      exact absurd (by simp) (has' word)
  · cases cs with
    | nil => exact ⟨by simp, (List.cons.inj hcs).2.symm⟩
    | cons c cs =>
      obtain ⟨rfl, -⟩ := List.cons.inj hcs
      exact absurd (by simp) (has word')

/-- A row of tokens is cut in front of its parentheses, inside them or behind them. -/
theorem cut_parens {as bs ts us vs : List Token}
    (h : as ++ bs = ts ++ .symbol .leftParen :: (us ++ .symbol .rightParen :: vs)) :
    (∃ cs, ts = as ++ cs ∧ bs = cs ++ .symbol .leftParen :: (us ++ .symbol .rightParen :: vs)) ∨
      (∃ cs ds, as = ts ++ .symbol .leftParen :: cs ∧ us = cs ++ ds ∧ bs = ds ++ .symbol .rightParen :: vs) ∨
      ∃ cs, as = ts ++ .symbol .leftParen :: (us ++ .symbol .rightParen :: cs) ∧ vs = cs ++ bs := by
  rcases List.append_eq_append_iff.mp h with hfront | ⟨cs, rfl, hcs⟩
  · exact .inl hfront
  cases cs with
  | nil => exact .inl ⟨[], by simp, hcs.symm⟩
  | cons c cs =>
    obtain ⟨rfl, htail⟩ := List.cons.inj hcs
    right
    rcases List.append_eq_append_iff.mp htail with ⟨ds, rfl, hds⟩ | ⟨ds, rfl, hds⟩
    · cases ds with
      | nil => exact .inl ⟨us, [], by simp, by simp, hds.symm⟩
      | cons d ds =>
        obtain ⟨rfl, rfl⟩ := List.cons.inj hds
        exact .inr ⟨ds, rfl, rfl⟩
    · exact .inl ⟨cs, ds, rfl, rfl, hds⟩

theorem openAfter_isSome {depth n : Nat} {as bs : List Token} (h : openAfter depth (as ++ bs) = some n) :
    (openAfter depth as).isSome := by
  rw [openAfter_append] at h
  cases has : openAfter depth as with
  | none => simp [has] at h
  | some => rfl

/-- The tokens of a text that means something. -/
theorem Means.tokens {text : List Char} {plan : Plan} {unknown : List String} (h : Means text plan unknown) :
    (∃ ts, Scans text ts [] ∧ Sentence ts plan ∧ unknown = []) ∨
      ∃ ts us word k plan', Sentence ts plan' ∧ openAfter 0 us = some 0 ∧
        Scans text (ts ++ [.keyword .with_ word] ++
          .symbol .leftParen :: (us ++ .symbol .rightParen :: List.replicate k (.symbol .semicolon))) [] := by
  cases h with
  | bare hscans hsentence => exact .inl ⟨_, hscans, hsentence, rfl⟩
  | @hinted before inside behind ts us word k plan hbefore hsentence hinside hopen hbehind =>
    exact .inr ⟨ts, us, word, k, plan, hsentence, hopen, by simpa using (hbefore.parens hinside).join hbehind⟩

/-- Behind a statement semicolons may follow, and what holds no token. Without hints it is one semicolon at
most. -/
theorem Means.behind {text more : List Char} {ts : List Token} {j : Nat} {plan : Plan} {unknown : List String}
    (hmeans : Means text plan unknown) (htext : Scans text ts [])
    (hmore : Scans (text ++ more) (ts ++ List.replicate j (.symbol .semicolon)) [])
    (hbare : j ≠ 0 → WithFree ts →
      ¬[.symbol .semicolon, .symbol .semicolon] <:+ ts ++ List.replicate j (.symbol .semicolon)) :
    Means (text ++ more) plan unknown := by
  rcases hmeans.tokens with ⟨us, hus, hsentence, rfl⟩ | ⟨us, inside, word, k, plan', hsentence, hopen, hscans⟩
  · obtain rfl := htext.unique hus
    have hfree := composable_withFree.sentence hsentence
    refine .bare hmore ?_
    match j, hbare with
    | 0, _ => simpa using hsentence
    | 1, hbare =>
      cases hsentence with
      | bare hselect => exact .closed hselect
      | @closed ts _ hselect => exact absurd ⟨ts, by simp⟩ (hbare (by decide) hfree)
    | j + 2, hbare =>
      refine absurd ⟨ts ++ List.replicate j (.symbol .semicolon), ?_⟩ (hbare (by omega) hfree)
      simp [List.replicate_succ', -List.replicate_append_replicate]
  · obtain rfl := htext.unique hscans
    obtain ⟨before, list, behind, rfl, hbefore, hlist, hbehind⟩ := hscans.exists_parens
    rw [List.append_nil] at hbefore hlist
    have hplan := Means.hinted hbefore hsentence hlist hopen hbehind
    obtain ⟨rfl, rfl⟩ := hmeans.unique hplan
    have hfront : Scans before (us ++ [.keyword .with_ word]) ('(' :: (list ++ ')' :: (behind ++ more))) :=
      Scans.of_closing (by rwa [List.cons_append])
    have hinside : Scans list inside (')' :: (behind ++ more)) := Scans.of_closing (by rwa [List.nil_append])
    have hsemicolons : Scans (behind ++ more) (List.replicate (k + j) (.symbol .semicolon)) [] :=
      Scans.behind_parens (by simpa using hfront) (by simpa using hinside)
        (by simpa [List.replicate_append_replicate] using hmore)
    simpa using Means.hinted hfront hsentence hinside hopen hsemicolons

/-- What is left of a list that is open. -/
theorem exists_rest_of_list {list inside ts us : List Token} (h : (openAfter 0 inside).isSome)
    (hlist : openAfter 0 list = some 0) (hcut : inside ++ ts = list ++ .symbol .rightParen :: us) :
    ∃ ds, list = inside ++ ds ∧ ts = ds ++ .symbol .rightParen :: us := by
  rcases List.append_eq_append_iff.mp hcut with hrest | ⟨cs, rfl, hcs⟩
  · exact hrest
  · cases cs with
    | nil => exact ⟨[], by simp, hcs.symm⟩
    | cons c cs =>
      obtain ⟨rfl, -⟩ := List.cons.inj hcs
      simp [openAfter_append, hlist, openAfter] at h

section

variable {as gap gap' rest : List Char} {ts : List Token} {plan : Plan} {unknown : List String}

/-- Outside the list of hints it does not matter what separates two tokens. -/
theorem Means.replace_gap (hmeans : Means (as ++ (gap ++ rest)) plan unknown) (h : Scans as ts (gap ++ rest))
    (h' : Scans as ts (gap' ++ rest)) (hgap : Scans gap [] rest) (hgap' : Scans gap' [] rest) (hlist : ¬InHints ts) :
    Means (as ++ (gap' ++ rest)) plan unknown := by
  have hbehind {us : List Token} (hus : Scans (as ++ (gap ++ rest)) us []) : ∃ vs, us = ts ++ vs ∧ Scans rest vs [] := by
    obtain ⟨vs, rfl, hvs⟩ := h.behind hus
    obtain ⟨vs, rfl, hvs⟩ := hgap.behind hvs
    exact ⟨vs, rfl, hvs⟩
  -- What both texts mean is what the one means.
  have htwo (plan₁ : Plan) (unknown₁ : List String)
      (hboth : ∀ {gap : List Char}, Scans as ts (gap ++ rest) → Scans gap [] rest →
        Means (as ++ (gap ++ rest)) plan₁ unknown₁) : Means (as ++ (gap' ++ rest)) plan unknown := by
    obtain ⟨rfl, rfl⟩ := hmeans.unique (hboth h hgap)
    exact hboth h' hgap'
  rcases hmeans.tokens with ⟨us, hus, hsentence, rfl⟩ | ⟨us, inside, word, k, plan', hsentence, hopen, hscans⟩
  · obtain ⟨vs, rfl, hvs⟩ := hbehind hus
    exact .bare (h'.join (hgap'.join hvs)) hsentence
  · obtain ⟨vs, hcut, hvs⟩ := hbehind hscans
    rcases cut_parens hcut.symm with ⟨cs, hfront, rfl⟩ | ⟨cs, ds, rfl, rfl, rfl⟩ | ⟨cs, rfl, hsemicolons⟩
    · -- The list stands in what follows.
      obtain ⟨before, text, behind, rfl, hbefore, htext, hbehind⟩ := hvs.exists_parens
      rw [List.append_nil] at hbefore htext
      refine htwo { plan' with hints := (listed text).hints } (listed text).unknown fun {gap} h hgap => ?_
      have hmore : Scans (as ++ (gap ++ before)) (us ++ [.keyword .with_ word]) ('(' :: (text ++ ')' :: behind)) := by
        rw [hfront]
        refine Scans.append (by simpa using h) ?_
        exact Scans.append_gap (by simpa using hgap) hbefore
      simpa using Means.hinted hmore hsentence htext hopen hbehind
    · exact absurd ⟨us, word, cs, by simp, composable_withFree.sentence hsentence, openAfter_isSome hopen⟩ hlist
    · -- The list is closed already.
      obtain ⟨before, text, behind, rfl, hbefore, htext, -⟩ := h.exists_parens
      refine htwo { plan' with hints := (listed text).hints } (listed text).unknown fun {gap} h hgap => ?_
      have hfront : Scans before (us ++ [.keyword .with_ word]) ('(' :: (text ++ ')' :: (behind ++ (gap ++ rest)))) :=
        Scans.of_closing (by rwa [List.cons_append])
      have hinside : Scans text inside (')' :: (behind ++ (gap ++ rest))) := Scans.of_closing (by rwa [List.nil_append])
      have hclosed : Scans (behind ++ (gap ++ rest)) (List.replicate k (.symbol .semicolon)) [] := by
        rw [hsemicolons]
        exact (hfront.behind_parens hinside h).join (hgap.join hvs)
      simpa using Means.hinted hfront hsentence hinside hopen hclosed

/-- In an open list of hints the rest of the list follows, and semicolons behind it. -/
theorem Means.exists_rest (hmeans : Means (as ++ rest) plan unknown) (h : Scans as ts rest) (hlist : InHints ts) :
    ∃ us word inside ds k plan', ts = us ++ [.keyword .with_ word] ++ .symbol .leftParen :: inside ∧ Sentence us plan' ∧
      openAfter 0 (inside ++ ds) = some 0 ∧
      Scans rest (ds ++ .symbol .rightParen :: List.replicate k (.symbol .semicolon)) [] := by
  obtain ⟨before, word, inside, rfl, hfree, hopens⟩ := hlist
  rcases hmeans.tokens with ⟨us, hus, hsentence, -⟩ | ⟨us, list, word', k, plan', hsentence, hopen, hscans⟩
  · obtain ⟨vs, rfl, -⟩ := h.behind hus
    exact absurd (by simp) (composable_withFree.sentence hsentence word)
  · obtain ⟨vs, hcut, hvs⟩ := h.behind hscans
    simp only [List.append_assoc, List.cons_append] at hcut
    obtain ⟨rfl, htail⟩ := withFree_unique (composable_withFree.sentence hsentence) hfree hcut
    obtain ⟨ds, rfl, rfl⟩ := exists_rest_of_list hopens hopen (List.cons.inj htail).2.symm
    exact ⟨us, word, inside, ds, k, plan', by simp, hsentence, hopen, hvs⟩

/-- In the list of hints white space may stand between two tokens. -/
theorem Means.insert_space {space : List Char} (hmeans : Means (as ++ (gap ++ rest)) plan unknown)
    (h : Scans as ts (gap ++ rest)) (h' : Scans as ts (gap ++ (space ++ rest))) (hgap : Scans gap [] rest)
    (hgap' : Scans (gap ++ space) [] rest) (hspace : ∀ c ∈ space, IsSpace c) (hlist : InHints ts)
    (hnames : ∀ us word vs, Scans (as ++ (gap ++ rest)) (us ++ .keyword .with_ word :: vs) [] →
      ∀ t ∈ vs, TopLevel.PlainName t) : ∃ unknown', Means (as ++ (gap ++ (space ++ rest))) plan unknown' := by
  by_cases hnil : space = []
  · subst hnil
    exact ⟨unknown, hmeans⟩
  obtain ⟨us, word, inside, ds, k, plan', rfl, hsentence, hopen, hvs⟩ := hmeans.exists_rest h hlist
  have hplain := hnames us word _ (by simpa using h.join hvs)
  obtain ⟨vs, rfl, hvs⟩ := hgap.behind hvs
  -- Where the list begins and where it ends.
  obtain ⟨before, front, rfl, hbefore, hfront⟩ := h.exists_symbol (c := '(') rfl
  obtain ⟨behind, more, rfl, hbehind, hmore⟩ := hvs.exists_symbol (c := ')') rfl
  simp only [List.append_nil, List.append_assoc] at *
  -- The token in front of the place stays what it is.
  have hbefore' : Scans before (us ++ [.keyword .with_ word]) ('(' :: (front ++ (gap ++ (space ++ (behind ++ ')' :: more))))) := by
    have hseparates := hgap'.separates (by simp [hnil]) (behind ++ ')' :: more)
    have hopening : Scans before (us ++ [.keyword .with_ word]) ('(' :: front) := Scans.of_append (by simpa using hbefore)
    simpa using hopening.separated (by simp) hseparates
  have hfront' : Scans front inside (gap ++ (space ++ (behind ++ ')' :: more))) :=
    hbefore'.behind_token (spells_leftParen _) (by simpa using h')
  have hinside : Scans (front ++ (gap ++ behind)) (inside ++ ds) (')' :: more) :=
    Scans.append (by simpa using hfront) (hgap.append_gap hbehind)
  have hinside' : Scans (front ++ (gap ++ (space ++ behind))) (inside ++ ds) (')' :: more) :=
    Scans.append (by simpa using hfront') (by simpa using hgap'.append_gap hbehind)
  have hlist : ∀ t ∈ inside ++ ds, TopLevel.PlainName t := by
    intro t ht
    refine hplain t ?_
    rcases List.mem_append.mp ht with ht | ht <;> simp [ht]
  have hhints := listed_hints (fun t ht => hlist t (List.mem_append_left _ ht)) (fun t ht => hlist t (List.mem_append_right _ ht)) hspace
    hgap.of_append hgap'.of_append (Scans.of_append (by simpa using hfront)) (Scans.of_append (by simpa using hfront'))
    hbehind.to_end
  have hmeans' := Means.hinted (by simpa using hbefore) hsentence hinside hopen hmore
  obtain ⟨rfl, -⟩ := hmeans.unique (by simpa using hmeans')
  refine ⟨(listed (front ++ (gap ++ (space ++ behind)))).unknown, ?_⟩
  rw [← hhints]
  simpa using Means.hinted (by simpa using hbefore') hsentence hinside' hopen hmore

end

/-! ## The whole text -/

/-- What does not count at the end of a text. -/
def isEnd (c : Char) : Bool := c = ';' || Text.isBlank c

theorem body_append {front : List Char} (h : Text.trimStart front ≠ []) (rest : List Char) :
    body (front ++ rest) = if rest.all isEnd then Text.dropEndWhile isEnd (Text.trimStart front)
      else Text.trimStart front ++ Text.dropEndWhile isEnd rest := by
  have hstart : Text.trimStart (front ++ rest) = Text.trimStart front ++ rest := by
    rw [Text.trimStart, List.dropWhile_append, if_neg (by simpa [Text.trimStart] using h)]
    rfl
  rw [body, hstart]
  exact Text.dropEndWhile_append isEnd _ rest

theorem isEnd_of_isSpace {c : Char} (h : IsSpace c) : isEnd c = true := by
  rw [isEnd, isBlank_of_isSpace h, Bool.or_true]

section

variable {as space gap rest : List Char} {ts : List Token} {plan : Plan} {unknown : List String}

/-- Between two tokens more may stand, in the list of hints white space. -/
theorem Means.insert_gap (hmeans : Means (as ++ (space ++ rest)) plan unknown) (h : Scans as ts (space ++ rest))
    (h' : Scans as ts (space ++ (gap ++ rest))) (hspace : Scans space [] rest) (hspace' : Scans (space ++ gap) [] rest)
    (hlist : InHints ts → (∀ c ∈ gap, IsSpace c) ∧ ∀ us word vs,
      Scans (as ++ (space ++ rest)) (us ++ .keyword .with_ word :: vs) [] → ∀ t ∈ vs, TopLevel.PlainName t) :
    ∃ unknown', Means (as ++ (space ++ (gap ++ rest))) plan unknown' := by
  by_cases hin : InHints ts
  · obtain ⟨hspaces, hnames⟩ := hlist hin
    exact hmeans.insert_space h h' hspace hspace' hspaces hin hnames
  · have hreplaced := hmeans.replace_gap h (by rwa [List.append_assoc]) hspace hspace' hin
    exact ⟨unknown, by rwa [List.append_assoc] at hreplaced⟩

/-- Without what does not count at its end, what holds no token holds none. -/
theorem scans_dropEnd (h : Scans gap [] rest) : Scans (Text.dropEndWhile isEnd gap) [] [] := by
  obtain ⟨us, k, htokens, hscans⟩ := h.to_end.dropEnd
  obtain ⟨rfl, -⟩ := List.append_eq_nil_iff.mp htokens.symm
  exact hscans

/-- Behind the last token a comment may stand, with the semicolons in front of it. -/
theorem Means.append_gap (hmeans : Means (Text.dropEndWhile isEnd (as ++ space)) plan unknown)
    (htext : Scans (as ++ space) ts []) (h : Scans as ts (space ++ (gap ++ rest))) (hgap : Scans (space ++ gap) [] rest)
    (hcounts : gap.all isEnd = false)
    (hsemicolons : WithFree ts → ¬[.symbol .semicolon, .symbol .semicolon] <:+ ts) :
    Means (as ++ space ++ Text.dropEndWhile isEnd gap) plan unknown := by
  have hspaces : Scans (Text.dropEndWhile isEnd (space ++ gap)) [] [] := scans_dropEnd hgap
  have hlonger : Text.dropEndWhile isEnd (space ++ gap) = space ++ Text.dropEndWhile isEnd gap := by
    rw [Text.dropEndWhile_append, if_neg (by simp [hcounts])]
  have hall : Scans (as ++ space ++ Text.dropEndWhile isEnd gap) ts [] := by
    obtain ⟨tail, htail, -⟩ := Text.exists_end isEnd gap
    rw [hlonger] at hspaces
    rw [htail] at h
    have hfront : Scans as ts (space ++ Text.dropEndWhile isEnd gap) := Scans.of_append (by simpa using h)
    simpa using hfront.join hspaces
  -- The text that is read has lost the semicolons, but they are back in front of the comment.
  obtain ⟨us, k, rfl, hus⟩ := htext.dropEnd
  obtain ⟨tail, htail, -⟩ := Text.exists_end isEnd (as ++ space)
  rw [htail, List.append_assoc] at hall ⊢
  refine hmeans.behind hus hall fun _ hfree => hsemicolons ?_
  exact composable_withFree.append hfree fun w hw => by simp at hw

end

/-- White space and comments between two tokens of a statement do not change its plan. Left open are the
places at which they would not be read as such: a comment directly behind a minus, comments in the list of
hints or behind two semicolons without hints, and lists of hints with a backslash in a name. -/
theorem parse_of_gap {front gap rest : List Char} {ts : List Token} {plan : Plan}
    (hparse : parse (String.ofList (front ++ rest)) = .ok plan) (hplace : Scans (Text.trimStart front) ts rest) (hts : ts ≠ [])
    (hgap : Filler gap) (hminus : BehindMinus (Text.trimStart front) rest → gap.head? ≠ some '-')
    (hlist : InHints ts → (∀ c ∈ gap, IsSpace c) ∧ ∀ us word vs,
      Scans (body (front ++ rest)) (us ++ .keyword .with_ word :: vs) [] → ∀ t ∈ vs, TopLevel.PlainName t)
    (hsemicolons : WithFree ts → [.symbol .semicolon, .symbol .semicolon] <:+ ts → ∀ c ∈ gap, IsSpace c) :
    parse (String.ofList (front ++ (gap ++ rest))) = .ok plan := by
  have hmeans := parse_iff_means.mp ⟨hparse, rfl⟩
  rw [String.toList_ofList] at hmeans
  suffices h : ∃ unknown, Means (body (front ++ (gap ++ rest))) plan unknown by
    obtain ⟨unknown, h⟩ := h
    exact (parse_iff_means.mpr (by rwa [String.toList_ofList])).1
  have hne : Text.trimStart front ≠ [] := by
    intro hnil
    rw [hnil] at hplace
    exact hts hplace.tokens_of_nil
  obtain ⟨as, space, hfront, hspace, hspace', has, has'⟩ := hplace.exists_place hgap hminus
  rw [body_append hne] at hmeans hlist ⊢
  generalize unknownHints (String.ofList (front ++ rest)) = unknown at hmeans
  generalize Text.trimStart front = text at *
  subst hfront
  rw [List.all_append, Text.dropEndWhile_append isEnd gap]
  by_cases hend : rest.all isEnd = true
  · -- Behind the place nothing counts.
    rw [if_pos hend] at *
    rw [hend, Bool.and_true]
    refine ⟨unknown, ?_⟩
    cases hcounts : gap.all isEnd with
    | true => exact hmeans
    | false =>
      have hcomment : ¬∀ c ∈ gap, IsSpace c := fun h => by
        rw [List.all_eq_true.mpr fun c hc => isEnd_of_isSpace (h c hc)] at hcounts
        cases hcounts
      exact hmeans.append_gap hplace.to_end has' hspace' hcounts fun hfree hsuffix => hcomment (hsemicolons hfree hsuffix)
  · rw [if_neg hend] at *
    rw [if_neg (by simp [hend])]
    obtain ⟨tail, htail, -⟩ := Text.exists_end isEnd rest
    generalize Text.dropEndWhile isEnd rest = rest' at *
    subst htail
    rw [List.append_assoc] at hmeans hlist ⊢
    exact hmeans.insert_gap (Scans.of_append (by rwa [List.append_assoc])) (Scans.of_append (by simpa using has'))
      hspace.of_append hspace'.of_append hlist

/-- A comment behind the first column. -/
theorem parse_of_gap_comment :
    parse (String.ofList ("SELECT a".toList ++ " FROM t".toList)) =
        .ok { Plan.blank with select := [⟨.expr (.column "a"), none⟩], table := "t" } ∧
      Scans (Text.trimStart "SELECT a".toList) [.keyword .select "SELECT", .identifier "a"] " FROM t".toList ∧
      Filler "-- b\n".toList ∧
      parse (String.ofList ("SELECT a".toList ++ ("-- b\n".toList ++ " FROM t".toList))) =
        .ok { Plan.blank with select := [⟨.expr (.column "a"), none⟩], table := "t" } := by
  have hlex : Token.lex (body (String.ofList ("SELECT a".toList ++ " FROM t".toList)).toList) = .ok
      [⟨.keyword .select "SELECT", 0, 6, 1⟩, ⟨.identifier "a", 7, 1, 1⟩, ⟨.keyword .from_ "FROM", 9, 4, 1⟩,
        ⟨.identifier "t", 14, 1, 1⟩] := by cbv
  have hparse := (parse_eq_ok hlex (by decide)).mpr (sentence_selecting (.expr (.column (.single "a"))))
  have hplace : Scans ['S', 'E', 'L', 'E', 'C', 'T', ' ', 'a'] [.keyword .select "SELECT", .identifier "a"] " FROM t".toList := by
    have hselect : Spells ['S', 'E', 'L', 'E', 'C', 'T'] (.keyword .select "SELECT") [' ', 'a', ' ', 'F', 'R', 'O', 'M', ' ', 't'] :=
      .name (by decide) (List.all_eq_true.mp rfl) (by rintro d ⟨⟩; rfl)
    have hcolumn : Spells ['a'] (.identifier "a") [' ', 'F', 'R', 'O', 'M', ' ', 't'] :=
      .name (by decide) (List.all_eq_true.mp rfl) (by rintro d ⟨⟩; rfl)
    exact .token hselect (.space (by decide) hcolumn.scans)
  have hfiller : Filler ['-', '-', ' ', 'b', '\n'] :=
    .comment (show '\n' ∉ [' ', 'b'] by decide) .nil
  refine ⟨hparse, hplace, hfiller, parse_of_gap hparse hplace (by simp) hfiller ?_ ?_ ?_⟩
  · rintro ⟨as, ts, htext, -⟩
    have hlast := congrArg List.getLast? htext
    rw [List.getLast?_concat] at hlast
    exact absurd hlast (by decide +kernel)
  · rintro ⟨before, word, inside, htokens, -⟩
    have hword : Token.keyword .with_ word ∈ [.keyword .select "SELECT", .identifier "a"] := by
      rw [htokens]
      simp
    simp at hword
  · exact fun _ hsuffix => absurd hsuffix (by decide)

/-- A comment directly behind a minus takes the minus with it. -/
theorem minus_in_front_of_comment :
    (∃ plan, parse "SELECT 1 - 2 FROM t" = .ok plan) ∧
      Scans "SELECT 1 -".toList [.keyword .select "SELECT", .integer 1, .symbol .minus] " 2 FROM t".toList ∧
      Filler "--c\n".toList ∧ ∀ plan, parse "SELECT 1 ---c\n 2 FROM t" ≠ .ok plan := by
  have hlex : Token.lex (body "SELECT 1 - 2 FROM t".toList) = .ok
      [⟨.keyword .select "SELECT", 0, 6, 1⟩, ⟨.integer 1, 7, 1, 1⟩, ⟨.symbol .minus, 9, 1, 1⟩, ⟨.integer 2, 11, 1, 1⟩,
        ⟨.keyword .from_ "FROM", 13, 4, 1⟩, ⟨.identifier "t", 18, 1, 1⟩] := by cbv
  have hlex' : Token.lex (body "SELECT 1 ---c\n 2 FROM t".toList) = .ok
      [⟨.keyword .select "SELECT", 0, 6, 1⟩, ⟨.integer 1, 7, 1, 1⟩, ⟨.integer 2, 15, 1, 2⟩,
        ⟨.keyword .from_ "FROM", 17, 4, 2⟩, ⟨.identifier "t", 22, 1, 2⟩] := by cbv
  have hdifference : Expression 0 [.integer 1, .symbol .minus, .integer 2] _ :=
    .binary .sub (Nat.zero_le 1) (.integer 1) (.integer 2)
  have hselect : Spells ['S', 'E', 'L', 'E', 'C', 'T'] (.keyword .select "SELECT")
      [' ', '1', ' ', '-', ' ', '2', ' ', 'F', 'R', 'O', 'M', ' ', 't'] :=
    .name (by decide) (List.all_eq_true.mp rfl) (by rintro d ⟨⟩; rfl)
  have hdigit : Decimals ['1'] := ⟨by decide, List.all_eq_true.mp rfl⟩
  have hone : Spells ['1'] (.integer 1) [' ', '-', ' ', '2', ' ', 'F', 'R', 'O', 'M', ' ', 't'] :=
    Spells.number hdigit .absent .absent ⟨by rintro d ⟨⟩; rfl, fun _ _ => rfl, fun _ => rfl⟩ rfl
  have hminus : Spells ['-'] (.symbol .minus) [' ', '2', ' ', 'F', 'R', 'O', 'M', ' ', 't'] :=
    .symbol (show SymbolEnds .minus _ by simp [SymbolEnds])
  have hfiller : Filler ['-', '-', 'c', '\n'] := .comment (show '\n' ∉ ['c'] by decide) .nil
  refine ⟨⟨_, (parse_eq_ok hlex (by decide)).mpr (sentence_selecting (.expr hdifference))⟩,
    .token hselect (.space (by decide) (.token hone (.space (by decide) hminus.scans))), hfiller, fun plan h => ?_⟩
  have hsentence := (parse_eq_ok hlex' (by decide)).mp h
  have hrun := run_eq_ok_iff.mpr hsentence
  cases hrun

end JsonTables.Statement
