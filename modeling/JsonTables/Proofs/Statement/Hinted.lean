/-
  JsonTables.Proofs.Statement.Hinted — the texts that are statements, with their hints.

  A statement's text is a sentence, or a sentence with a list of hints behind it: the word `WITH`, a
  parenthesis, text up to the parenthesis that closes the list, and nothing but semicolons. The sentence
  is decided by its tokens, the hints by the text of the list.

  Proved:
  - `parse_iff_means`: the parser accepts these texts, with their plans and unknown hints, and no others.
  - `Means.unique`: a text means one thing at most.
-/

import JsonTables.Proofs.Statement.RoundTrip
import JsonTables.Proofs.Token.Scanning

namespace JsonTables.Statement

open Grammar Token

/-! ## The parentheses of a list -/

/-- How many parentheses are open behind some tokens; nothing if one closes that did not open among them. -/
def openAfter (depth : Nat) : List Token → Option Nat
  | [] => some depth
  | .symbol .rightParen :: ts => if depth = 0 then none else openAfter (depth - 1) ts
  | .symbol .leftParen :: ts => openAfter (depth + 1) ts
  | _ :: ts => openAfter depth ts

theorem openAfter_append (depth : Nat) (ts us : List Token) :
    openAfter depth (ts ++ us) = (openAfter depth ts).bind (openAfter · us) := by
  fun_induction openAfter depth ts <;> simp_all [openAfter]

theorem openAfter_other {t : Token} (hr : t ≠ .symbol .rightParen) (hl : t ≠ .symbol .leftParen) (depth : Nat)
    (ts : List Token) : openAfter depth (t :: ts) = openAfter depth ts := by
  cases t with
  | symbol s => cases s <;> first | rfl | contradiction
  | _ => rfl

/-- Whether a parenthesis closes the list. -/
def closesList (x : Lexeme × Nat) : Bool := x.1.isSymbol .rightParen && x.2 == 0

theorem closesList_mk (x : Lexeme) (depth : Nat) : closesList (x, depth) = (x.isSymbol .rightParen && depth == 0) := rfl

/-- The search for the end of a list passes over what is paired. -/
theorem dropWhile_list {inside behind : List Lexeme} {close : Lexeme} {depth : Nat}
    (h : openAfter depth (inside.map (·.token)) = some 0) (hclose : close.token = .symbol .rightParen) :
    (withDepth (depth + 1) (inside ++ close :: behind)).dropWhile (!closesList ·) = (close, 0) :: withDepth 0 behind := by
  induction inside generalizing depth with
  | nil =>
    obtain rfl : depth = 0 := Option.some.inj h
    simp [withDepth, Lexeme.isSymbol, closesList_mk, hclose]
  | cons x inside ih =>
    by_cases hr : x.token = .symbol .rightParen
    · have hpos : depth ≠ 0 := by
        rintro rfl
        simp [openAfter, hr] at h
      have hrest : openAfter (depth - 1) (inside.map (·.token)) = some 0 := by
        simpa [openAfter, hr, hpos] using h
      have ih := ih hrest
      rw [Nat.sub_add_cancel (by omega)] at ih
      simp [withDepth, Lexeme.isSymbol, closesList_mk, hr, hpos, ih]
    · by_cases hl : x.token = .symbol .leftParen
      · have hrest : openAfter (depth + 1) (inside.map (·.token)) = some 0 := by
          simpa [openAfter, hl] using h
        simp [withDepth, Lexeme.isSymbol, closesList_mk, hl, ih hrest]
      · have hrest : openAfter depth (inside.map (·.token)) = some 0 := by
          rwa [List.map_cons, openAfter_other hr hl] at h
        simp [withDepth, Lexeme.isSymbol, closesList_mk, hr, hl, ih hrest]

/-- The search for the end of a list stops behind what is paired. -/
theorem exists_list {xs : List Lexeme} {close : Lexeme} {depth depth' : Nat} {behind : List (Lexeme × Nat)}
    (h : (withDepth (depth + 1) xs).dropWhile (!closesList ·) = (close, depth') :: behind) :
    ∃ inside rest, xs = inside ++ close :: rest ∧ openAfter depth (inside.map (·.token)) = some 0 ∧
      close.token = .symbol .rightParen ∧ behind = withDepth 0 rest := by
  induction xs generalizing depth with
  | nil => cases h
  | cons x xs ih =>
    by_cases hr : x.token = .symbol .rightParen
    · by_cases hpos : depth = 0
      · subst hpos
        simp [withDepth, Lexeme.isSymbol, closesList_mk, hr] at h
        obtain ⟨⟨rfl, rfl⟩, rfl⟩ := h
        exact ⟨[], xs, rfl, rfl, hr, rfl⟩
      · have hnext : (withDepth (depth - 1 + 1) xs).dropWhile (!closesList ·) = (close, depth') :: behind := by
          rw [Nat.sub_add_cancel (by omega)]
          simpa [withDepth, Lexeme.isSymbol, closesList_mk, hr, hpos] using h
        obtain ⟨inside, rest, rfl, hopen, hclose, rfl⟩ := ih hnext
        exact ⟨x :: inside, rest, rfl, by simpa [openAfter, hr, hpos] using hopen, hclose, rfl⟩
    · by_cases hl : x.token = .symbol .leftParen
      · have hnext : (withDepth (depth + 1 + 1) xs).dropWhile (!closesList ·) = (close, depth') :: behind := by
          simpa [withDepth, Lexeme.isSymbol, closesList_mk, hl] using h
        obtain ⟨inside, rest, rfl, hopen, hclose, rfl⟩ := ih hnext
        exact ⟨x :: inside, rest, rfl, by simpa [openAfter, hl] using hopen, hclose, rfl⟩
      · have hnext : (withDepth (depth + 1) xs).dropWhile (!closesList ·) = (close, depth') :: behind := by
          simpa [withDepth, Lexeme.isSymbol, closesList_mk, hr, hl] using h
        obtain ⟨inside, rest, rfl, hopen, hclose, rfl⟩ := ih hnext
        exact ⟨x :: inside, rest, rfl, by rwa [List.map_cons, openAfter_other hr hl], hclose, rfl⟩

/-! ## The word that starts a list -/

/-- Whether hints begin here. -/
def opensHints (x : Lexeme × Nat) : Bool := x.1.isKeyword .with_ && x.2 == 0

theorem withDepth_cons {x : Lexeme} (h : x.token ≠ .symbol .rightParen) (hl : x.token ≠ .symbol .leftParen) (depth : Nat)
    (xs : List Lexeme) : withDepth depth (x :: xs) = (x, depth) :: withDepth depth xs := by
  simp [withDepth, Lexeme.isSymbol, h, hl]

theorem isKeyword_iff {x : Lexeme} {k : Keyword} : x.isKeyword k = true ↔ ∃ w, x.token = .keyword k w := by
  unfold Lexeme.isKeyword
  split
  · rename_i l w hx
    simp [hx]
  · rename_i hx
    simp only [Bool.false_eq_true, false_iff, not_exists]
    exact fun w hw => hx k w hw

theorem opensHints_iff {x : Lexeme} {d : Nat} : opensHints (x, d) = true ↔ (∃ w, x.token = .keyword .with_ w) ∧ d = 0 := by
  rw [opensHints, Bool.and_eq_true, isKeyword_iff, beq_iff_eq]

theorem map_fst_withDepth (depth : Nat) (xs : List Lexeme) : (withDepth depth xs).map Prod.fst = xs := by
  fun_induction withDepth depth xs <;> simp_all

theorem withDepth_split {depth d : Nat} {xs : List Lexeme} {front behind : List (Lexeme × Nat)} {y : Lexeme}
    (h : withDepth depth xs = front ++ (y, d) :: behind) : ∃ as bs, xs = as ++ y :: bs ∧ front = withDepth depth as ∧
      (y, d) :: behind = withDepth (depthAfter depth (as.map (·.token))) (y :: bs) := by
  have hxs := map_fst_withDepth depth xs
  rw [h, List.map_append, List.map_cons] at hxs
  refine ⟨front.map Prod.fst, behind.map Prod.fst, hxs.symm, ?_⟩
  rw [← hxs, withDepth_append] at h
  have hlength : (withDepth depth (front.map Prod.fst)).length = front.length := by
    rw [← List.length_map (f := Prod.fst), map_fst_withDepth, List.length_map]
  obtain ⟨hfront, hbehind⟩ := List.append_inj h hlength
  exact ⟨hfront.symm, hbehind.symm⟩

/-- No word `WITH` stands outside parentheses. -/
def NoWith (ts : List Token) : Prop := ∀ us w vs, ts = us ++ .keyword .with_ w :: vs → depthAfter 0 us ≠ 0

theorem WithFree.noWith {ts : List Token} (h : WithFree ts) : NoWith ts := by
  rintro us w vs rfl
  exact absurd (List.mem_append_right us List.mem_cons_self) (h w)

/-- The search for a list finds nothing if there is no such word. -/
theorem noWith_iff {xs : List Lexeme} : NoWith (xs.map (·.token)) ↔ (withDepth 0 xs).dropWhile (!opensHints ·) = [] := by
  rw [List.dropWhile_eq_nil_iff]
  constructor
  · rintro h ⟨x, d⟩ hx
    obtain ⟨front, behind, hsplit⟩ := List.append_of_mem hx
    obtain ⟨as, bs, rfl, -, hbehind⟩ := withDepth_split hsplit
    by_contra hopens
    rw [Bool.not_eq_true, Bool.not_eq_false', opensHints_iff] at hopens
    obtain ⟨⟨w, hw⟩, rfl⟩ := hopens
    rw [withDepth_cons (by rw [hw]; simp) (by rw [hw]; simp)] at hbehind
    exact h _ w _ (by rw [List.map_append, List.map_cons, hw]) (Prod.mk.inj (List.cons.inj hbehind).1).2.symm
  · intro h us w vs hts hdepth
    obtain ⟨as, more, rfl, rfl, hmore⟩ := List.map_eq_append_iff.mp hts
    obtain ⟨x, bs, rfl, hx, -⟩ := List.map_eq_cons_iff.mp hmore
    have hmem : (x, 0) ∈ withDepth 0 (as ++ x :: bs) := by
      rw [withDepth_append, hdepth, withDepth_cons (by rw [hx]; simp) (by rw [hx]; simp)]
      exact List.mem_append_right _ List.mem_cons_self
    have hclosed := h _ hmem
    rw [opensHints_iff.mpr ⟨⟨w, hx⟩, rfl⟩] at hclosed
    cases hclosed

/-- The search for a list stops at the first such word. -/
theorem dropWhile_with {as bs : List Lexeme} {word : Lexeme} {w : String} (hword : word.token = .keyword .with_ w)
    (hfirst : NoWith (as.map (·.token))) (hdepth : depthAfter 0 (as.map (·.token)) = 0) :
    (withDepth 0 (as ++ word :: bs)).dropWhile (!opensHints ·) = (word, 0) :: withDepth 0 bs := by
  have hopens : opensHints (word, 0) = true := opensHints_iff.mpr ⟨⟨w, hword⟩, rfl⟩
  rw [withDepth_append, hdepth, withDepth_cons (by rw [hword]; simp) (by rw [hword]; simp), List.dropWhile_append,
    noWith_iff.mp hfirst]
  simp [hopens]

theorem exists_first_with {xs : List Lexeme} (h : ¬NoWith (xs.map (·.token))) : ∃ as word w bs, xs = as ++ word :: bs ∧
    word.token = .keyword .with_ w ∧ NoWith (as.map (·.token)) ∧ depthAfter 0 (as.map (·.token)) = 0 := by
  rw [noWith_iff] at h
  obtain ⟨⟨word, d⟩, rest, hdrop⟩ := List.exists_cons_of_ne_nil h
  have hhead := List.head?_dropWhile_not (!opensHints ·) (withDepth 0 xs)
  have hsplit := List.takeWhile_append_dropWhile (p := (!opensHints ·)) (l := withDepth 0 xs)
  rw [hdrop] at hhead hsplit
  obtain ⟨⟨w, hword⟩, rfl⟩ := opensHints_iff.mp (show opensHints (word, d) = true by simpa using hhead)
  obtain ⟨as, bs, rfl, hfront, hbehind⟩ := withDepth_split hsplit.symm
  rw [withDepth_cons (by rw [hword]; simp) (by rw [hword]; simp)] at hbehind
  refine ⟨as, word, w, bs, rfl, hword, noWith_iff.mpr ?_, (Prod.mk.inj (List.cons.inj hbehind).1).2.symm⟩
  rw [← hfront, List.dropWhile_eq_nil_iff]
  exact List.all_eq_true.mp List.all_takeWhile

/-! ## What a text means -/

/-- The extraction with more names. -/
def addAll (x : Hint.Extraction) (names : List (List Char)) : Hint.Extraction :=
  names.foldl (fun x name => x.add (String.ofList name)) x

/-- What the text between the parentheses of a list means, set apart from any statement. -/
def listed (inside : List Char) : Hint.Extraction := addAll ⟨[], Hints.empty, []⟩ (TopLevel.split [','] inside)

/-- The text, without semicolons at its end, is a statement with the plan and the unknown hints. -/
inductive Means : List Char → Plan → List String → Prop
  | bare {text : List Char} {ts : List Token} {plan : Plan} : Scans text ts [] → Sentence ts plan → Means text plan []
  | hinted {before inside behind : List Char} {ts us : List Token} {word : String} {k : Nat} {plan : Plan} :
      Scans before (ts ++ [.keyword .with_ word]) ('(' :: (inside ++ ')' :: behind)) → Sentence ts plan →
      Scans inside us (')' :: behind) → openAfter 0 us = some 0 →
      Scans behind (List.replicate k (.symbol .semicolon)) [] →
      Means (before ++ '(' :: (inside ++ ')' :: behind)) { plan with hints := (listed inside).hints } (listed inside).unknown

theorem Means.ne_nil {text : List Char} {plan : Plan} {unknown : List String} (h : Means text plan unknown) : text ≠ [] := by
  rintro rfl
  generalize htext : [] = text at h
  cases h with
  | bare hscans hsentence =>
    subst htext
    obtain rfl := hscans.tokens_of_nil
    obtain ⟨w, is, from_, rest, htokens, -⟩ := sentence_shape hsentence
    cases htokens
  | hinted => simp at htext

theorem extraction_add (text : List Char) (x : Hint.Extraction) (name : String) :
    ({ x with text } : Hint.Extraction).add name = { x.add name with text } := by
  unfold Hint.Extraction.add
  split <;> rfl

theorem addAll_text (text : List Char) (x : Hint.Extraction) (names : List (List Char)) :
    addAll { x with text } names = { addAll x names with text } := by
  induction names generalizing x with
  | nil => rfl
  | cons name names ih =>
    show addAll (({ x with text } : Hint.Extraction).add _) names = _
    rw [extraction_add, ih]
    rfl

/-! ## The lexemes of a text with hints -/

/-- A text with hints in its lexemes, and where they stand. -/
theorem lex_hinted {before inside behind : List Char} {ts us vs : List Token} {word : String}
    (hbefore : Scans before (ts ++ [.keyword .with_ word]) ('(' :: (inside ++ ')' :: behind)))
    (hinside : Scans inside us (')' :: behind)) (hbehind : Scans behind vs []) :
    ∃ (front : List Char) (xs ys zs : List Lexeme) (with_ opening close : Lexeme),
      Token.lex (before ++ '(' :: (inside ++ ')' :: behind)) = .ok (xs ++ with_ :: opening :: (ys ++ close :: zs)) ∧
      xs.map (·.token) = ts ∧ ys.map (·.token) = us ∧ zs.map (·.token) = vs ∧
      with_.token = .keyword .with_ word ∧ opening.token = .symbol .leftParen ∧ close.token = .symbol .rightParen ∧
      Scans front ts [] ∧ (before ++ '(' :: (inside ++ ')' :: behind)).take with_.position = front ∧
      opening.position = before.length ∧ close.position = before.length + 1 + inside.length := by
  obtain ⟨front, src, gap, rfl, hfront, hword, hgap⟩ := hbefore.exists_token
  have hopening := spells_leftParen (inside ++ ')' :: behind)
  have hclose := spells_rightParen behind
  obtain ⟨xs, l₁, hxs, h₁⟩ := hfront.lexFrom 0 1
  have h₂ := lexFrom_token hword (0 + front.length) l₁
  obtain ⟨gs, l₂, hgs, h₃⟩ := hgap.lexFrom (0 + front.length + src.length) l₁
  have h₄ := lexFrom_token hopening (0 + front.length + src.length + gap.length) l₂
  obtain ⟨ys, l₃, hys, h₅⟩ := hinside.lexFrom (0 + front.length + src.length + gap.length + 1) l₂
  have h₆ := lexFrom_token hclose (0 + front.length + src.length + gap.length + 1 + inside.length) l₃
  obtain ⟨zs, l₄, hzs, h₇⟩ := hbehind.lexFrom (0 + front.length + src.length + gap.length + 1 + inside.length + 1) l₃
  obtain rfl : gs = [] := List.map_eq_nil_iff.mp hgs
  rw [List.append_nil, Token.lexFrom] at h₇
  simp only [List.singleton_append, List.length_singleton] at h₄ h₆
  refine ⟨front, xs, ys, zs, ⟨.keyword .with_ word, 0 + front.length, src.length, l₁⟩,
    ⟨.symbol .leftParen, 0 + front.length + src.length + gap.length, 1, l₂⟩,
    ⟨.symbol .rightParen, 0 + front.length + src.length + gap.length + 1 + inside.length, 1, l₃⟩, ?_, hxs, hys, hzs, rfl, rfl,
    rfl, hfront.to_end, by simp, by simp; omega, by simp; omega⟩
  have htext : front ++ (src ++ gap) ++ '(' :: (inside ++ ')' :: behind) =
      front ++ (src ++ (gap ++ '(' :: (inside ++ ')' :: behind))) := by simp
  rw [htext, Token.lex, h₁, h₂, h₃, h₄, h₅, h₆, h₇]
  simp [Except.map]

/-! ## Extracting the hints -/

/-- Whether the text goes on behind a list of hints. -/
def goesOn (x : Lexeme × Nat) : Bool := !x.1.isSymbol .semicolon

theorem extract_eq (text : List Char) : Hint.extract text = (Token.lex text).bind fun lexemes =>
    match (withDepth 0 lexemes).dropWhile (!opensHints ·) with
    | [] => .ok ⟨text, Hints.empty, []⟩
    | (word, _) :: (opening, _) :: rest =>
      if opening.isSymbol .leftParen then Hint.readList text word opening rest else .error .noHintList
    | _ => .error .noHintList := rfl

theorem readList_eq (text : List Char) (word opening : Lexeme) (rest : List (Lexeme × Nat)) :
    Hint.readList text word opening rest =
      match rest.dropWhile (!closesList ·) with
      | [] => .error (.unterminatedHints (Hint.textFrom text word.position))
      | (close, _) :: behind =>
        match behind.find? goesOn with
        | some (x, _) => .error (.textAfterHints (Hint.textFrom text x.position))
        | none => .ok (addAll ⟨Text.trimEnd (text.take word.position), Hints.empty, []⟩
            (TopLevel.split [','] (Text.slice text (opening.position + 1) close.position))) := rfl

/-- A text without such a word has no hints. -/
theorem extract_of_noWith {text : List Char} {xs : List Lexeme} (hlex : Token.lex text = .ok xs)
    (h : NoWith (xs.map (·.token))) : Hint.extract text = .ok ⟨text, Hints.empty, []⟩ := by
  rw [extract_eq, hlex]
  simp only [Except.bind, noWith_iff.mp h]

/-- A list that is read ends with the parenthesis that closes it, and nothing but semicolons stands behind it. -/
theorem readList_eq_ok_iff {text : List Char} {word opening : Lexeme} {rest : List Lexeme} {x : Hint.Extraction} :
    Hint.readList text word opening (withDepth 1 rest) = .ok x ↔ ∃ inside close behind, rest = inside ++ close :: behind ∧
      openAfter 0 (inside.map (·.token)) = some 0 ∧ close.token = .symbol .rightParen ∧
      (∀ z ∈ behind, z.token = .symbol .semicolon) ∧
      x = { listed (Text.slice text (opening.position + 1) close.position) with
        text := Text.trimEnd (text.take word.position) } := by
  have hnone {behind : List Lexeme} :
      (withDepth 0 behind).find? goesOn = none ↔ ∀ z ∈ behind, z.token = .symbol .semicolon := by
    rw [List.find?_eq_none]
    constructor
    · intro h z hz
      rw [← map_fst_withDepth 0 behind] at hz
      obtain ⟨y, hy, rfl⟩ := List.mem_map.mp hz
      simpa [goesOn, Lexeme.isSymbol] using h y hy
    · intro h y hy
      simp [goesOn, Lexeme.isSymbol, h y.1 (mem_of_mem_withDepth hy)]
  have hvalue (close : Lexeme) := addAll_text (Text.trimEnd (text.take word.position)) ⟨[], Hints.empty, []⟩
    (TopLevel.split [','] (Text.slice text (opening.position + 1) close.position))
  rw [readList_eq]
  constructor
  · intro h
    split at h
    · cases h
    · rename_i close d behind hlist
      obtain ⟨inside, rest', rfl, hopen, hclose, rfl⟩ := exists_list hlist
      split at h
      · cases h
      · rename_i hend
        exact ⟨inside, close, rest', rfl, hopen, hclose, hnone.mp hend, (Except.ok.inj h).symm.trans (hvalue close)⟩
  · rintro ⟨inside, close, behind, rfl, hopen, hclose, hend, rfl⟩
    rw [dropWhile_list hopen hclose]
    simp only [hnone.mpr hend]
    exact congrArg Except.ok (hvalue close)

/-- The hints behind the first `WITH` outside parentheses: they are extracted if a closed list follows, and nothing but
semicolons behind it. -/
theorem extract_eq_ok_iff {text : List Char} {as behind : List Lexeme} {word : Lexeme} {w : String} {x : Hint.Extraction}
    (hlex : Token.lex text = .ok (as ++ word :: behind)) (hword : word.token = .keyword .with_ w)
    (hfirst : NoWith (as.map (·.token))) (hdepth : depthAfter 0 (as.map (·.token)) = 0) :
    Hint.extract text = .ok x ↔ ∃ opening inside close ends, behind = opening :: (inside ++ close :: ends) ∧
      opening.token = .symbol .leftParen ∧ openAfter 0 (inside.map (·.token)) = some 0 ∧
      close.token = .symbol .rightParen ∧ (∀ z ∈ ends, z.token = .symbol .semicolon) ∧
      x = { listed (Text.slice text (opening.position + 1) close.position) with
        text := Text.trimEnd (text.take word.position) } := by
  rw [extract_eq, hlex]
  simp only [Except.bind, dropWhile_with hword hfirst hdepth]
  cases behind with
  | nil => simp [withDepth]
  | cons opening rest =>
    by_cases hopening : opening.token = .symbol .leftParen
    · have hparen : opening.isSymbol .leftParen = true := by
        simp [Lexeme.isSymbol, hopening]
      have hdepths : withDepth 0 (opening :: rest) = (opening, 0) :: withDepth 1 rest := by
        simp [withDepth, Lexeme.isSymbol, hopening]
      simp only [hdepths, hparen, if_true, readList_eq_ok_iff]
      constructor
      · rintro ⟨inside, close, ends, rfl, hrest⟩
        exact ⟨opening, inside, close, ends, rfl, hopening, hrest⟩
      · rintro ⟨_, inside, close, ends, he, -, hrest⟩
        obtain ⟨rfl, rfl⟩ := List.cons.inj he
        exact ⟨inside, close, ends, rfl, hrest⟩
    · have hparen : opening.isSymbol .leftParen = false := by
        simp [Lexeme.isSymbol, hopening]
      obtain ⟨d, more, hdepths⟩ : ∃ d more, withDepth 0 (opening :: rest) = (opening, d) :: more := by
        unfold withDepth
        split
        · exact ⟨_, _, rfl⟩
        · split
          · exact ⟨_, _, rfl⟩
          · exact ⟨_, _, rfl⟩
      simp only [hdepths, hparen, if_false, Bool.false_eq_true, reduceCtorEq, false_iff]
      rintro ⟨_, inside, close, ends, he, hclaim, -⟩
      obtain ⟨rfl, -⟩ := List.cons.inj he
      exact hopening hclaim

/-- The hints of a text whose list is closed, and what is left of the text. -/
theorem extract_hinted {before inside behind : List Char} {ts us : List Token} {word : String} {k : Nat}
    (hbefore : Scans before (ts ++ [.keyword .with_ word]) ('(' :: (inside ++ ')' :: behind))) (hfree : NoWith ts)
    (hdepth : depthAfter 0 ts = 0) (hinside : Scans inside us (')' :: behind)) (hopen : openAfter 0 us = some 0)
    (hbehind : Scans behind (List.replicate k (.symbol .semicolon)) []) :
    ∃ front, Scans front ts [] ∧
      Hint.extract (before ++ '(' :: (inside ++ ')' :: behind)) = .ok { listed inside with text := Text.trimEnd front } := by
  obtain ⟨front, xs, ys, zs, with_, opening, close, hlex, rfl, rfl, hzs, hwith, hopening, hclose, hfront, htake, hstart,
    hstop⟩ := lex_hinted hbefore hinside hbehind
  have hslice : Text.slice (before ++ '(' :: (inside ++ ')' :: behind)) (opening.position + 1) close.position = inside := by
    have htext : before ++ '(' :: (inside ++ ')' :: behind) = (before ++ ['(']) ++ (inside ++ ')' :: behind) := by simp
    have hlength : before.length + 1 = (before ++ ['(']).length := by simp
    rw [Text.slice, hstart, hstop, htext, hlength, List.drop_left, Nat.add_sub_cancel_left, List.take_left]
  have hends : ∀ z ∈ zs, z.token = .symbol .semicolon := by
    intro z hz
    have hmem := List.mem_map_of_mem (f := (·.token)) hz
    rw [hzs] at hmem
    exact List.eq_of_mem_replicate hmem
  refine ⟨front, hfront, (extract_eq_ok_iff hlex hwith hfree hdepth).mpr ?_⟩
  exact ⟨opening, ys, close, zs, rfl, hopening, hopen, hclose, hends, by rw [hslice, htake]⟩

/-! ## Parsing -/

theorem parse_eq {sql : String} {text : List Char} (htext : body sql.toList = text) (hne : text ≠ []) :
    parse sql = (Hint.extract text).bind fun extraction =>
      (parseClauses extraction.text).map fun plan => { plan with hints := extraction.hints } := by
  simp only [parse, htext, List.isEmpty_iff, hne, bind, Except.bind]
  rfl

/-- Where the hints are set apart from a text that means something, the rest of it is accepted. -/
theorem Means.extract {text : List Char} {plan : Plan} {unknown : List String} (h : Means text plan unknown) :
    ∃ extraction plan', Hint.extract text = .ok extraction ∧ parseClauses extraction.text = .ok plan' ∧
      plan = { plan' with hints := extraction.hints } ∧ unknown = extraction.unknown := by
  cases h with
  | bare hscans hsentence =>
    obtain ⟨xs, hlex, rfl⟩ := hscans.lex
    have hwith := (composable_withFree.sentence hsentence).noWith
    refine ⟨_, plan, extract_of_noWith hlex hwith, (parseClauses_eq_ok hlex).mpr hsentence, ?_, rfl⟩
    rw [← hints_of_sentence hsentence]
  | @hinted before inside behind ts us word k plan hbefore hsentence hinside hopen hbehind =>
    obtain ⟨front, hfront, hextract⟩ := extract_hinted hbefore (composable_withFree.sentence hsentence).noWith
      (composable_balanced.sentence hsentence 0) hinside hopen hbehind
    obtain ⟨xs, hlex, rfl⟩ := hfront.trimEnd.lex
    exact ⟨_, plan, hextract, (parseClauses_eq_ok hlex).mpr hsentence, rfl, rfl⟩

/-- A text means one thing at most. -/
theorem Means.unique {text : List Char} {plan plan' : Plan} {unknown unknown' : List String} (h : Means text plan unknown)
    (h' : Means text plan' unknown') : plan = plan' ∧ unknown = unknown' := by
  obtain ⟨x, p, hx, hp, rfl, rfl⟩ := h.extract
  obtain ⟨x', p', hx', hp', rfl, rfl⟩ := h'.extract
  obtain rfl := Except.ok.inj (hx.symm.trans hx')
  obtain rfl := Except.ok.inj (hp.symm.trans hp')
  exact ⟨rfl, rfl⟩

/-- The lexemes of a text whose hints are extracted: those in front of the first top-level `WITH`, the list,
and semicolons. -/
theorem exists_hint_lexemes {text : List Char} {extraction : Hint.Extraction} (h : Hint.extract text = .ok extraction)
    {xs : List Lexeme} (hlex : Token.lex text = .ok xs) : extraction = ⟨text, Hints.empty, []⟩ ∨
      ∃ (as : List Lexeme) (word opening : Lexeme) (ys : List Lexeme) (close : Lexeme) (zs : List Lexeme) (w : String),
        xs = as ++ word :: opening :: (ys ++ close :: zs) ∧
        word.token = .keyword .with_ w ∧ opening.token = .symbol .leftParen ∧ close.token = .symbol .rightParen ∧
        zs.map (·.token) = List.replicate zs.length (.symbol .semicolon) ∧
        NoWith (as.map (·.token)) ∧ depthAfter 0 (as.map (·.token)) = 0 ∧ openAfter 0 (ys.map (·.token)) = some 0 := by
  by_cases hwith : NoWith (xs.map (·.token))
  · exact .inl (Except.ok.inj (h.symm.trans (extract_of_noWith hlex hwith)))
  · obtain ⟨as, word, w, bs, rfl, hword, hfirst, hdepth⟩ := exists_first_with hwith
    obtain ⟨opening, ys, close, zs, rfl, hopening, hopen, hclose, hends, -⟩ :=
      (extract_eq_ok_iff hlex hword hfirst hdepth).mp h
    refine .inr ⟨as, word, opening, ys, close, zs, w, rfl, hword, hopening, hclose, ?_, hfirst, hdepth, hopen⟩
    refine List.eq_replicate_iff.mpr ⟨List.length_map _, fun t ht => ?_⟩
    obtain ⟨z, hz, rfl⟩ := List.mem_map.mp ht
    exact hends z hz

/-- What the extraction of hints finds: none, or a closed list. -/
theorem extract_cases {text : List Char} {extraction : Hint.Extraction} (h : Hint.extract text = .ok extraction) :
    (extraction = ⟨text, Hints.empty, []⟩ ∧ ∃ ts, Scans text ts []) ∨
      ∃ (before inside behind : List Char) (ts us : List Token) (word : String) (k : Nat) (front : List Char),
        text = before ++ '(' :: (inside ++ ')' :: behind) ∧
        Scans before (ts ++ [.keyword .with_ word]) ('(' :: (inside ++ ')' :: behind)) ∧
        Scans inside us (')' :: behind) ∧ openAfter 0 us = some 0 ∧
        Scans behind (List.replicate k (.symbol .semicolon)) [] ∧
        Scans front ts [] ∧ extraction = { listed inside with text := Text.trimEnd front } := by
  cases hlex : Token.lex text with
  | error m =>
    rw [extract_eq, hlex] at h
    cases h
  | ok xs =>
    have hscans := scans_of_lexFrom hlex
    rcases exists_hint_lexemes h hlex with rfl | ⟨as, word, opening, ys, close, zs, w, rfl, hword, hopening, hclose, hzs,
      hfree, hdepth, hopen⟩
    · exact .inl ⟨rfl, _, hscans⟩
    · right
      have htokens : (as ++ word :: opening :: (ys ++ close :: zs)).map (·.token) =
          (as.map (·.token) ++ [.keyword .with_ w]) ++ .symbol .leftParen :: (ys.map (·.token) ++
            .symbol .rightParen :: List.replicate zs.length (.symbol .semicolon)) := by
        simp [hword, hopening, hclose, hzs]
      rw [htokens] at hscans
      obtain ⟨before, inside, behind, rfl, hbefore, hinside, hbehind⟩ := hscans.exists_parens
      rw [List.append_nil] at hbefore hinside
      obtain ⟨front, hfront, hextract⟩ := extract_hinted hbefore hfree hdepth hinside hopen hbehind
      refine ⟨before, inside, behind, as.map (·.token), ys.map (·.token), w, zs.length, front, rfl, hbefore, hinside, hopen,
        hbehind, hfront, ?_⟩
      exact Except.ok.inj (h.symm.trans hextract)

/-- A text whose hints are set apart and whose rest is accepted means what they mean. -/
theorem means_of_extract {text : List Char} {extraction : Hint.Extraction} {plan : Plan}
    (hextract : Hint.extract text = .ok extraction) (hclauses : parseClauses extraction.text = .ok plan) :
    Means text { plan with hints := extraction.hints } extraction.unknown := by
  rcases extract_cases hextract with ⟨rfl, ts, hscans⟩ |
    ⟨before, inside, behind, ts, us, word, k, front, rfl, hbefore, hinside, hopen, hbehind, hfront, rfl⟩
  · obtain ⟨xs, hlex, rfl⟩ := hscans.lex
    have hsentence := (parseClauses_eq_ok hlex).mp hclauses
    have hplan : { plan with hints := Hints.empty } = plan := by
      rw [← hints_of_sentence hsentence]
    dsimp only
    rw [hplan]
    exact .bare hscans hsentence
  · obtain ⟨xs, hlex, rfl⟩ := hfront.trimEnd.lex
    exact .hinted hbefore ((parseClauses_eq_ok hlex).mp hclauses) hinside hopen hbehind

/-- The parser accepts the texts that mean something, with what they mean, and no others. -/
theorem parse_iff_means {sql : String} {plan : Plan} {unknown : List String} :
    parse sql = .ok plan ∧ unknownHints sql = unknown ↔ Means (body sql.toList) plan unknown := by
  constructor
  · rintro ⟨h, rfl⟩
    generalize htext : body sql.toList = text
    have hne : text ≠ [] := by
      rintro rfl
      simp only [parse, htext] at h
      cases h
    rw [parse_eq htext hne] at h
    rw [unknownHints, htext]
    cases hextract : Hint.extract text with
    | error m =>
      rw [hextract] at h
      cases h
    | ok extraction =>
      rw [hextract] at h
      dsimp only [Except.bind] at h ⊢
      cases hclauses : parseClauses extraction.text with
      | error m =>
        rw [hclauses] at h
        cases h
      | ok plan' =>
        rw [hclauses] at h
        obtain rfl := Except.ok.inj h
        exact means_of_extract hextract hclauses
  · intro h
    obtain ⟨extraction, plan', hextract, hclauses, rfl, rfl⟩ := h.extract
    have hne : body sql.toList ≠ [] := by
      intro hnil
      rw [hnil] at h
      exact h.ne_nil rfl
    constructor
    · rw [parse_eq rfl hne, hextract]
      simp [Except.bind, Except.map, hclauses]
    · rw [unknownHints, hextract]

end JsonTables.Statement
