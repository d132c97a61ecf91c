/-
  JsonTables.Proofs.Token.Lexing — what a written token is read as.

  `Lexed cs ts` says that a text is made of pieces whose tokens are `ts`, integers without zeros in front. A
  token that is written out is read as itself if what follows does not go on with it: behind a name no
  character of names, behind a number or a text only what may stand behind an expression. How many digits
  an integer has decides whether the lexer goes on.

  Proved:
  - `Lexed.lexFrom`: from any position and line the lexer gives these tokens, if no integer has too many digits.
  - `Lexed.lexFrom_overlong`: it stops at the first integer that has.
  - `Lexed.unique`: a text is made of one row of tokens.
  - `lexed_name`, `lexed_segment`, `lexed_quote`, `lexed_natural`, `lexed_written`: one lemma a kind of token.
-/

import JsonTables.Expr.Text
import JsonTables.Proofs.Token.Numbers

namespace JsonTables.Token

/-! ## Texts made of pieces -/

inductive Lexed : List Char → List Token → Prop
  | nil : Lexed [] []
  | gap {c : Char} {rest : List Char} {lines n : Nat} {ts : List Token} :
      piece? c rest = some (.gap lines, n) → Lexed (rest.drop n) ts → Lexed (c :: rest) ts
  | token {c : Char} {rest : List Char} {t : Token} {n : Nat} {ts : List Token} :
      piece? c rest = some (.token t, n) → (∀ k, t = .integer k → n + 1 = (Nat.toDigits 10 k).length) →
      Lexed (rest.drop n) ts → Lexed (c :: rest) (t :: ts)

/-- The integers among some tokens. -/
def integers (ts : List Token) : List Nat := ts.filterMap fun
  | .integer k => some k
  | _ => none

/-- Whether a natural number has more digits than are read. -/
def TooLong (k : Nat) : Prop := maxDigits < (Nat.toDigits 10 k).length

theorem isOverlong_iff {t : Token} {length : Nat} (h : ∀ k, t = .integer k → length = (Nat.toDigits 10 k).length) :
    t.isOverlong length = true ↔ ∃ k, t = .integer k ∧ TooLong k := by
  cases t with
  | integer k => simp [isOverlong, TooLong, h k rfl]
  | _ => simp [isOverlong]

theorem mem_integers {ts : List Token} {k : Nat} : k ∈ integers ts ↔ .integer k ∈ ts := by
  unfold integers
  rw [List.mem_filterMap]
  constructor
  · rintro ⟨t, ht, hk⟩
    split at hk
    · rwa [← Option.some.inj hk]
    · cases hk
  · exact fun h => ⟨_, h, rfl⟩

theorem Lexed.lexFrom {cs : List Char} {ts : List Token} (h : Lexed cs ts) (hshort : ∀ k ∈ integers ts, ¬TooLong k)
    (position line : Nat) : ∃ xs, Token.lexFrom position line cs = .ok xs ∧ xs.map (·.token) = ts := by
  simp only [mem_integers] at hshort
  induction h generalizing position line with
  | nil => exact ⟨[], by rw [Token.lexFrom], rfl⟩
  | @gap c rest lines n ts hp _ ih =>
    obtain ⟨xs, hxs, htokens⟩ := ih (position + n + 1) (line + lines) hshort
    refine ⟨xs, ?_, htokens⟩
    rw [Token.lexFrom, hp]
    exact hxs
  | @token c rest t n ts hp hlength _ ih =>
    obtain ⟨xs, hxs, rfl⟩ := ih (position + n + 1) line fun k hk => hshort k (List.mem_cons_of_mem t hk)
    refine ⟨⟨t, position, n + 1, line⟩ :: xs, ?_, rfl⟩
    have hread : ¬t.isOverlong (n + 1) = true := by
      rw [isOverlong_iff hlength]
      rintro ⟨k, rfl, hk⟩
      exact hshort k List.mem_cons_self hk
    rw [Token.lexFrom, hp]
    simp only [hxs, if_neg hread]
    rfl

/-- The lexer stops at the first integer that has too many digits. -/
theorem Lexed.lexFrom_overlong {cs : List Char} {ts : List Token} (h : Lexed cs ts) {k : Nat} (hk : k ∈ integers ts)
    (hlong : TooLong k) (position line : Nat) :
    ∃ j ∈ integers ts, TooLong j ∧ Token.lexFrom position line cs = .error (.overlong (Nat.toDigits 10 j).length) := by
  simp only [mem_integers] at hk ⊢
  induction h generalizing position line with
  | nil => cases hk
  | @gap c rest lines n ts hp _ ih =>
    obtain ⟨j, hj, htooLong, hstops⟩ := ih (position + n + 1) (line + lines) hk
    refine ⟨j, hj, htooLong, ?_⟩
    rw [Token.lexFrom, hp]
    exact hstops
  | @token c rest t n ts hp hlength _ ih =>
    rw [Token.lexFrom, hp]
    dsimp only
    by_cases hstop : t.isOverlong (n + 1) = true
    · obtain ⟨j, rfl, hj⟩ := (isOverlong_iff hlength).mp hstop
      refine ⟨j, List.mem_cons_self, hj, ?_⟩
      rw [if_pos hstop, hlength j rfl]
    · have hrest : .integer k ∈ ts := by
        refine (List.mem_cons.mp hk).resolve_left ?_
        rintro rfl
        exact hstop ((isOverlong_iff hlength).mpr ⟨k, rfl, hlong⟩)
      obtain ⟨j, hj, htooLong, hstops⟩ := ih (position + n + 1) line hrest
      refine ⟨j, List.mem_cons_of_mem t hj, htooLong, ?_⟩
      rw [if_neg hstop, hstops]
      rfl

/-- A text is made of one row of tokens. -/
theorem Lexed.unique {cs : List Char} {ts us : List Token} (h : Lexed cs ts) (h' : Lexed cs us) : ts = us := by
  induction h generalizing us with
  | nil =>
    cases h'
    rfl
  | gap hp _ ih =>
    cases h' with
    | gap hp' hrest =>
      cases hp.symm.trans hp'
      exact ih hrest
    | token hp' => cases hp.symm.trans hp'
  | token hp _ _ ih =>
    cases h' with
    | gap hp' => cases hp.symm.trans hp'
    | token hp' _ hrest =>
      cases hp.symm.trans hp'
      rw [ih hrest]

/-! ## Symbols -/

theorem stops_cons {c : Char} (h : c = ' ' ∨ c = ',' ∨ c = ')') (rest : List Char) : Stops (c :: rest) := by
  intro d he
  cases he
  exact h

theorem lexed_blank {rest : List Char} {ts : List Token} (h : Lexed rest ts) : Lexed (' ' :: rest) ts :=
  .gap (show piece? ' ' rest = some (.gap 0, 0) from rfl) h

/-- A character that is a symbol by itself. -/
theorem lexed_symbol {c : Char} {s : Symbol} (hc : ∀ rest, piece? c rest = some (.token (.symbol s), 0))
    {rest : List Char} {ts : List Token} (h : Lexed rest ts) : Lexed (c :: rest) (.symbol s :: ts) :=
  .token (hc rest) nofun h

/-- A second minus would make it a comment. -/
theorem lexed_minus {rest : List Char} {ts : List Token} (hrest : rest.head? ≠ some '-') (h : Lexed rest ts) :
    Lexed ('-' :: rest) (.symbol .minus :: ts) := by
  have hp : piece? '-' rest = some (.token (.symbol .minus), 0) := by
    have hdecimal : Text.isDecimal '-' = false := rfl
    simp only [piece?, hrest, hdecimal]
    rfl
  exact .token hp nofun h

/-! ## Numbers -/

theorem piece?_of_isDecimal {c : Char} {rest : List Char} (h : Text.isDecimal c = true) :
    piece? c rest = some (.token (number (c :: rest)).1, (number (c :: rest)).2 - 1) := by
  have hne : ∀ d, Text.isDecimal d = false → c ≠ d := by
    rintro d hd rfl
    rw [h] at hd
    cases hd
  simp only [piece?, hne ' ' rfl, hne '\t' rfl, hne '\r' rfl, hne '\n' rfl, hne '-' rfl, or_self, false_and, if_false,
    h, if_true]

/-- Digits and what belongs to them, read as one number. -/
theorem lexed_number {ds rest : List Char} {t : Token} {us : List Token} (hds : ∃ c ∈ ds.head?, c.isDigit = true)
    (hread : number (ds ++ rest) = (t, ds.length)) (hlength : ∀ k, t = .integer k → ds.length = (Nat.toDigits 10 k).length)
    (h : Lexed rest us) : Lexed (ds ++ rest) (t :: us) := by
  obtain ⟨c, hc, hdigit⟩ := hds
  obtain ⟨ds', rfl⟩ := List.head?_eq_some_iff.mp hc
  have hp := @piece?_of_isDecimal c (ds' ++ rest) (isDecimal_of_isDigit hdigit)
  rw [List.cons_append] at hread ⊢
  rw [hread] at hp
  exact .token hp hlength (by simpa using h)

theorem lexed_natural (n : Nat) {rest : List Char} {us : List Token} (hrest : Stops rest) (h : Lexed rest us) :
    Lexed (Nat.toDigits 10 n ++ rest) (.integer n :: us) := by
  refine lexed_number ?_ (number_natural n hrest) (fun k hk => by rw [Token.integer.inj hk]) h
  obtain ⟨c, ds, hds⟩ := List.exists_cons_of_ne_nil (digits_toDigits n).1
  exact ⟨c, by simp [hds], (digits_toDigits n).2 c (by simp [hds])⟩

theorem Written.head_text (w : Written) : ∃ c ∈ w.text.head?, c.isDigit = true := by
  obtain ⟨c, ds, hds⟩ := List.exists_cons_of_ne_nil w.whole_digits.1
  exact ⟨c, by simp [Written.text, hds], w.whole_digits.2 c (by simp [hds])⟩

theorem lexed_written (w : Written) (hform : w.numeral.isInteger = false) {rest : List Char} {us : List Token}
    (hrest : Stops rest) (h : Lexed rest us) : Lexed (w.text ++ rest) (.float w.numeral.toBinary64 :: us) := by
  have hread := number_append w hrest
  rw [hform, if_neg Bool.false_ne_true] at hread
  exact lexed_number w.head_text hread nofun h

/-! ## Names -/

/-- Whether a name may start with the character. -/
def StartsName (c : Char) : Prop := c = '$' ∨ c.isAlpha = true ∨ c = '_'

instance (c : Char) : Decidable (StartsName c) := inferInstanceAs (Decidable (c = '$' ∨ c.isAlpha = true ∨ c = '_'))

/-- Characters that are one name without backticks. -/
def NameChars : List Char → Prop
  | [] => False
  | c :: cs => StartsName c ∧ cs.all isNameChar = true

instance : DecidablePred NameChars
  | [] => inferInstanceAs (Decidable False)
  | c :: cs => inferInstanceAs (Decidable (StartsName c ∧ cs.all isNameChar = true))

def IsIdentifier (name : String) : Prop := NameChars name.toList

instance (name : String) : Decidable (IsIdentifier name) := inferInstanceAs (Decidable (NameChars name.toList))

theorem IsIdentifier.exists_cons {name : String} (h : IsIdentifier name) :
    ∃ c cs, name.toList = c :: cs ∧ StartsName c ∧ ∀ d ∈ cs, isNameChar d = true := by
  unfold IsIdentifier at h
  cases hcs : name.toList with
  | nil =>
    rw [hcs] at h
    cases h
  | cons c cs =>
    rw [hcs] at h
    exact ⟨c, cs, rfl, h.1, List.all_eq_true.mp h.2⟩

theorem isDigit_of_isAlpha {c : Char} (h : c.isAlpha = true) : c.toNat < 0x80 ∧ c.isDigit = false := by
  unfold Char.isAlpha Char.isUpper Char.isLower at h
  unfold Char.isDigit
  simp only [Bool.or_eq_true, Bool.and_eq_true, decide_eq_true_eq, UInt32.le_iff_toNat_le, Bool.and_eq_false_iff,
    decide_eq_false_iff_not] at *
  simp at *
  omega

theorem StartsName.isDecimal_eq {c : Char} (h : StartsName c) : Text.isDecimal c = false := by
  rcases h with rfl | h | rfl
  · rfl
  · obtain ⟨hlt, hdigit⟩ := isDigit_of_isAlpha h
    simp [Text.isDecimal, Text.digitValue?, hlt, hdigit]
  · rfl

theorem piece?_of_startsName {c : Char} (h : StartsName c) (rest : List Char) :
    piece? c rest = some (.token (ofName (String.ofList (c :: rest.takeWhile isNameChar))),
      (rest.takeWhile isNameChar).length) := by
  have hne : ∀ d, ¬StartsName d → c ≠ d := by
    intro d hd he
    subst he
    exact hd h
  have hs : ∀ d, d ≠ '$' → d.isAlpha = false → d ≠ '_' → ¬StartsName d := by
    intro d h1 h2 h3 hd
    rcases hd with rfl | h | rfl
    · exact h1 rfl
    · rw [h2] at h
      cases h
    · exact h3 rfl
  have hblank := hne ' ' (hs _ (by decide) rfl (by decide))
  have htab := hne '\t' (hs _ (by decide) rfl (by decide))
  have hreturn := hne '\r' (hs _ (by decide) rfl (by decide))
  have hline := hne '\n' (hs _ (by decide) rfl (by decide))
  have hminus := hne '-' (hs _ (by decide) rfl (by decide))
  have hapostrophe := hne '\x27' (hs _ (by decide) rfl (by decide))
  have hquote := hne '\x22' (hs _ (by decide) rfl (by decide))
  have hbacktick := hne '\x60' (hs _ (by decide) rfl (by decide))
  simp only [piece?, hblank, htab, hreturn, hline, hminus, hapostrophe, hquote, hbacktick, h.isDecimal_eq, or_self,
    false_and, if_false, Bool.false_eq_true]
  exact if_pos h

theorem ofName_ne_integer (name : String) (k : Nat) : ofName name ≠ .integer k := by
  unfold ofName
  split <;> nofun

theorem lexed_name {name : String} (hname : IsIdentifier name) {rest : List Char} {us : List Token}
    (hrest : ∀ c ∈ rest.head?, isNameChar c = false) (h : Lexed rest us) :
    Lexed (name.toList ++ rest) (ofName name :: us) := by
  obtain ⟨c, cs, hcs, hc, hchars⟩ := hname.exists_cons
  have htake := (takeWhile_append_stop hchars hrest).1
  have hp := piece?_of_startsName hc (cs ++ rest)
  rw [htake, ← hcs, String.ofList_toList] at hp
  rw [hcs, List.cons_append]
  exact .token hp (fun k hk => absurd hk (ofName_ne_integer name k)) (by simpa using h)

theorem drop_behind (cs : List Char) (c : Char) (rest : List Char) : (cs ++ c :: rest).drop (cs.length + 1) = rest := by
  rw [← List.drop_drop, List.drop_left]
  rfl

theorem piece?_backticks {name : List Char} (hne : name ≠ []) (hname : '\x60' ∉ name) (rest : List Char) :
    piece? '\x60' (name ++ '\x60' :: rest) = some (.token (.identifier (String.ofList name)), name.length + 1) := by
  have htake : (name ++ '\x60' :: rest).takeWhile (· ≠ '\x60') = name := takeWhile_ne hname (by simp)
  have hlength : ¬(name.isEmpty = true ∨ (name ++ '\x60' :: rest).length = name.length) := by simp [hne]
  have hdecimal : Text.isDecimal '\x60' = false := rfl
  simp only [piece?, htake, if_neg hlength, hdecimal]
  rfl

theorem lexed_backticks {name : String} (hne : name.toList ≠ []) (hname : '\x60' ∉ name.toList) {rest : List Char}
    {us : List Token} (h : Lexed rest us) :
    Lexed ('\x60' :: (name.toList ++ '\x60' :: rest)) (.identifier name :: us) := by
  have hp := piece?_backticks hne hname rest
  rw [String.ofList_toList] at hp
  exact .token hp nofun (by rwa [drop_behind])

theorem isNameChar_of_startsName {c : Char} (h : StartsName c) : c = '$' ∨ isNameChar c = true := by
  rcases h with rfl | h | rfl
  · exact .inl rfl
  · exact .inr (by simp [isNameChar, Char.isAlphanum, h])
  · exact .inr rfl

theorem IsIdentifier.not_mem {name : String} (h : IsIdentifier name) {d : Char} (hd : isNameChar d = false)
    (hdollar : d ≠ '$') : d ∉ name.toList := by
  obtain ⟨c, cs, hcs, hc, hchars⟩ := h.exists_cons
  rw [hcs]
  intro hmem
  rcases List.mem_cons.mp hmem with rfl | hmem
  · rcases isNameChar_of_startsName hc with rfl | htrue
    · exact hdollar rfl
    · rw [hd] at htrue
      cases htrue
  · have htrue := hchars d hmem
    rw [hd] at htrue
    cases htrue

/-- A segment of a column is read as its name, also where the name is a reserved word. -/
theorem lexed_segment {name : String} (hname : IsIdentifier name) {rest : List Char} {us : List Token}
    (hrest : ∀ c ∈ rest.head?, isNameChar c = false) (h : Lexed rest us) :
    Lexed ((escapeName name).toList ++ rest) (.identifier name :: us) := by
  unfold escapeName
  split
  · have hne : name.toList ≠ [] := by
      obtain ⟨c, cs, hcs, -⟩ := hname.exists_cons
      simp [hcs]
    have hticks := lexed_backticks hne (hname.not_mem rfl (by decide)) h
    simpa using hticks
  · rename_i hreserved
    have hofName : ofName name = .identifier name := by
      rw [ofName, Option.not_isSome_iff_eq_none.mp hreserved]
    rw [← hofName]
    exact lexed_name hname hrest h

/-! ## Texts -/

/-- Every quote twice. -/
def doubleQuotes (quote : Char) (cs : List Char) : List Char :=
  cs.flatMap fun c => if c = quote then [quote, quote] else [c]

theorem replaceFrom_quote (quote : Char) (cs : List Char) :
    Text.replaceFrom [quote] [quote, quote] 0 cs = doubleQuotes quote cs := by
  induction cs with
  | nil => rfl
  | cons c cs ih =>
    by_cases hc : c = quote
    · subst hc
      simp [Text.replaceFrom, doubleQuotes, ih]
    · have hc' : quote ≠ c := Ne.symm hc
      simp [Text.replaceFrom, doubleQuotes, hc, hc', ih]

/-- What may stand between two quotes: a backslash takes the next character with it, and a quote stands
twice. -/
inductive QuotedBody (quote : Char) : List Char → Prop
  | nil : QuotedBody quote []
  | escape {d : Char} {cs : List Char} : d ≠ '\n' → QuotedBody quote cs → QuotedBody quote ('\\' :: d :: cs)
  | pair {cs : List Char} : QuotedBody quote cs → QuotedBody quote (quote :: quote :: cs)
  | plain {c : Char} {cs : List Char} : c ≠ '\\' → c ≠ quote → QuotedBody quote cs → QuotedBody quote (c :: cs)

theorem closing?_plain {quote c : Char} (hc : c ≠ '\\') (hq : c ≠ quote) (n : Nat) (pair : Option Nat) (cs : List Char) :
    closing? quote n pair (c :: cs) = closing? quote (n + 1) pair cs := by
  cases cs with
  | nil => simp [closing?, hq]
  | cons d cs => simp [closing?, hc, hq]

/-- The quote behind a body closes it, if it stands alone. -/
theorem closing?_body {quote : Char} (hquote : quote ≠ '\\') {body : List Char} (hbody : QuotedBody quote body)
    {rest : List Char} (hrest : rest.head? ≠ some quote) (n : Nat) (pair : Option Nat) :
    closing? quote n pair (body ++ quote :: rest) = some (n + body.length) := by
  induction hbody generalizing n pair with
  | nil =>
    cases rest with
    | nil => simp [closing?]
    | cons d rest =>
      have hd : d ≠ quote := fun he => hrest (congrArg some he)
      simp [closing?, hquote, hd]
  | escape hd _ ih =>
    simp only [List.cons_append, closing?, if_pos, hd, if_false, ih, List.length_cons]
    congr 1
    omega
  | pair _ ih =>
    simp only [List.cons_append, closing?, hquote, if_false, if_true, ih, List.length_cons]
    congr 1
    omega
  | plain hc hq _ ih =>
    rw [List.cons_append, closing?_plain hc hq, ih, List.length_cons]
    congr 1
    omega

theorem quotedBody_doubleQuotes {quote : Char} {cs : List Char} (hcs : '\\' ∉ cs) :
    QuotedBody quote (doubleQuotes quote cs) := by
  induction cs with
  | nil => exact .nil
  | cons c cs ih =>
    rw [List.mem_cons, not_or] at hcs
    rw [doubleQuotes, List.flatMap_cons, ← doubleQuotes]
    by_cases hq : c = quote
    · rw [if_pos hq]
      exact .pair (ih hcs.2)
    · rw [if_neg hq]
      exact .plain (Ne.symm hcs.1) hq (ih hcs.2)

theorem mergeQuotes_cons {quote c : Char} (hc : c ≠ quote) (cs : List Char) :
    mergeQuotes quote (c :: cs) = c :: mergeQuotes quote cs := by
  cases cs with
  | nil => rfl
  | cons d cs => simp [mergeQuotes, hc]

theorem mergeQuotes_doubleQuotes (quote : Char) (cs : List Char) :
    mergeQuotes quote (doubleQuotes quote cs) = cs := by
  induction cs with
  | nil => rfl
  | cons c cs ih =>
    by_cases hc : c = quote
    · subst hc
      rw [doubleQuotes, List.flatMap_cons, ← doubleQuotes]
      simp [mergeQuotes, ih]
    · rw [doubleQuotes, List.flatMap_cons, ← doubleQuotes, if_neg hc, List.singleton_append, mergeQuotes_cons hc, ih]

theorem dropBackslashes_cons {c : Char} (hc : c ≠ '\\') (cs : List Char) :
    dropBackslashes (c :: cs) = c :: dropBackslashes cs := by
  rw [dropBackslashes]
  intro d rest he
  exact absurd he hc

theorem dropBackslashes_eq {cs : List Char} (hcs : '\\' ∉ cs) : dropBackslashes cs = cs := by
  induction cs with
  | nil => rfl
  | cons c cs ih =>
    rw [List.mem_cons, not_or] at hcs
    rw [dropBackslashes_cons (Ne.symm hcs.1), ih hcs.2]

theorem piece?_quote {quote : Char} (hquote : quote = '\x27' ∨ quote = '\x22') {body : List Char} (hbody : QuotedBody quote body)
    {rest : List Char} (hrest : rest.head? ≠ some quote) :
    piece? quote (body ++ quote :: rest) = some (.token (.text (textBetween quote body)), body.length + 1) := by
  have hclosing := closing?_body (by rcases hquote with rfl | rfl <;> decide) hbody hrest 0 none
  have hdecimal : Text.isDecimal quote = false := by rcases hquote with rfl | rfl <;> rfl
  have htake : (body ++ quote :: rest).take body.length = body := List.take_left
  rcases hquote with rfl | rfl
  · simp only [piece?, hclosing, hdecimal, Nat.zero_add, Option.map_some, htake]
    rfl
  · simp only [piece?, hclosing, hdecimal, Nat.zero_add, Option.map_some, htake]
    rfl

/-- A text without backslashes is read as itself. -/
theorem lexed_quote {s : String} (hs : '\\' ∉ s.toList) {rest : List Char} {us : List Token}
    (hrest : rest.head? ≠ some '\x27') (h : Lexed rest us) :
    Lexed ((Literal.quote s).toList ++ rest) (.text s :: us) := by
  have htext : (Literal.quote s).toList ++ rest =
      '\x27' :: (doubleQuotes '\x27' s.toList ++ '\x27' :: rest) := by
    have hreplace : (Text.replace s "'" "''").toList = doubleQuotes '\x27' s.toList := by
      rw [Text.replace, if_neg (by decide), String.toList_ofList, ← replaceFrom_quote]
      rfl
    simp [Literal.quote, hreplace]
  have hbody : textBetween '\x27' (doubleQuotes '\x27' s.toList) = s := by
    rw [textBetween, mergeQuotes_doubleQuotes, dropBackslashes_eq hs, String.ofList_toList]
  have hp := piece?_quote (.inl rfl) (quotedBody_doubleQuotes hs) hrest
  rw [hbody] at hp
  rw [htext]
  exact .token hp nofun (by rwa [drop_behind])

end JsonTables.Token
