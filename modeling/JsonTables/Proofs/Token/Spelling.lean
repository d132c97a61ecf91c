/-
  JsonTables.Proofs.Token.Spelling — how each token is spelled, and in front of what.

  `Spells src t rest` says that the characters `src` in front of `rest` are the token `t`. A spelling is
  the longest of its kind, so each kind says how what follows must not go on; integers of too many digits
  are no tokens. Between quotes the lexer
  also takes the first of two quotes as the end where no single one follows; what it leaves then starts
  with a quote that nothing closes, so such a text is never read to its end.

  Proved:
  - `Spells.piece?_eq`: what is spelled is read, in one piece.
  - `spells_of_piece?`: what is read as a token is spelled so, if something is read behind it.
-/

import JsonTables.Proofs.Token.Lexing

namespace JsonTables.Token

/-! ## Numerals -/

/-- Decimal digits of any script, at least one. -/
def Decimals (ds : List Char) : Prop := ds ≠ [] ∧ ∀ c ∈ ds, Text.isDecimal c = true

/-- No digit stands in front. -/
def NoDigit (cs : List Char) : Prop := ∀ c ∈ cs.head?, Text.isDecimal c = false

/-- Whether a point with a digit behind it stands in front. -/
def opensFraction : List Char → Bool
  | '.' :: d :: _ => Text.isDecimal d
  | _ => false

/-- Whether a power of ten with a digit in it stands in front. -/
def opensExponent : List Char → Bool
  | e :: rest => (e = 'e' || e = 'E') && (Numeral.sign rest).2.head?.any Text.isDecimal
  | [] => false

/-- The digits behind the point as they are written, and their values. -/
inductive FractionText : List Char → Option (List Nat) → Prop
  | absent : FractionText [] none
  | digits {ds : List Char} : Decimals ds → FractionText ('.' :: ds) (some (ds.map Text.digitValue))

/-- A power of ten as it is written, and its value. -/
inductive ExponentText : List Char → Option Int → Prop
  | absent : ExponentText [] none
  | digits {e : Char} {sign ds : List Char} : e = 'e' ∨ e = 'E' → sign = [] ∨ sign = ['-'] ∨ sign = ['+'] → Decimals ds →
      ExponentText (e :: (sign ++ ds)) (some (if sign = ['-'] then -(Text.ofDigits (ds.map Text.digitValue) : Int)
        else Text.ofDigits (ds.map Text.digitValue)))

/-- The token that a numeral is. -/
def ofNumeral (n : Numeral) : Token := if n.isInteger then integer (Text.ofDigits n.whole) else float n.toBinary64

/-- What the lexer takes for the digits behind a point, and what follows them. -/
def fractionRead (cs : List Char) : Option (List Nat) × List Char :=
  match Numeral.fraction? cs with
  | (some (d :: ds), behind) => (some (d :: ds), behind)
  | _ => (none, cs)

theorem number_eq (cs : List Char) : number cs =
    let (fraction, rest) := fractionRead (Numeral.digits cs).2
    let (exponent, rest) := Numeral.exponent? rest
    (ofNumeral ⟨false, (Numeral.digits cs).1, fraction, exponent⟩, cs.length - rest.length) := rfl

theorem exists_zero_of_isDecimal {c : Char} (h : Text.isDecimal c = true) :
    ∃ first ∈ Text.zeroDigits, first ≤ c.toNat ∧ c.toNat < first + 10 := by
  unfold Text.isDecimal Text.digitValue? at h
  split at h
  · refine ⟨0x30, by simp [Text.zeroDigits], ?_⟩
    have hdigit : c.isDigit = true := by
      by_contra hdigit
      rw [if_neg hdigit] at h
      cases h
    have hrange := Char.isDigit_iff_toNat.mp hdigit
    rw [show '0'.toNat = 48 from rfl, show '9'.toNat = 57 from rfl] at hrange
    omega
  · rw [List.isSome_findSome?, List.any_eq_true] at h
    obtain ⟨first, hmem, hfirst⟩ := h
    split at hfirst
    · rename_i hrange
      exact ⟨first, hmem, hrange⟩
    · cases hfirst

theorem isBlank_of_isDecimal {c : Char} (h : Text.isDecimal c = true) : Text.isBlank c = false := by
  have hdigits : ∀ first ∈ Text.zeroDigits, ∀ i < 10, Text.isBlank (Char.ofNat (first + i)) = false := by decide +kernel
  obtain ⟨first, hmem, hrange⟩ := exists_zero_of_isDecimal h
  have hblank := hdigits first hmem (c.toNat - first) (by omega)
  rwa [Nat.add_sub_cancel' hrange.1, Char.ofNat_toNat] at hblank

theorem digits_of_decimals {ds rest : List Char} (hds : Decimals ds) (hrest : NoDigit rest) :
    Numeral.digits (ds ++ rest) = (ds.map Text.digitValue, rest) := digits_of_forall hds.2 hrest

theorem digits_of_noDigit {rest : List Char} (h : NoDigit rest) : Numeral.digits rest = ([], rest) :=
  digits_of_forall (fun _ hc => absurd hc List.not_mem_nil) h

/-- The digits in front of a text are a row of digits, or there are none. -/
theorem exists_digits (cs : List Char) : ∃ ds rest, cs = ds ++ rest ∧ NoDigit rest ∧ (∀ c ∈ ds, Text.isDecimal c = true) ∧
    Numeral.digits cs = (ds.map Text.digitValue, rest) := by
  obtain ⟨ds, rest, rfl, hds, hrest⟩ := exists_stop Text.isDecimal cs
  exact ⟨ds, rest, rfl, hrest, hds, digits_of_forall hds hrest⟩

theorem fractionRead_text {fs : List Char} {fraction : Option (List Nat)} (hf : FractionText fs fraction)
    {rest : List Char} (hdigit : fs ≠ [] → NoDigit rest) (hopen : fs = [] → opensFraction rest = false) :
    fractionRead (fs ++ rest) = (fraction, rest) := by
  cases hf with
  | absent =>
    have hopen := hopen rfl
    rw [List.nil_append, fractionRead]
    cases rest with
    | nil => rfl
    | cons c rest =>
      by_cases hc : c = '.'
      · subst hc
        have hno : NoDigit rest := by
          intro d hd
          obtain ⟨ds, rfl⟩ := List.head?_eq_some_iff.mp hd
          exact hopen
        simp [Numeral.fraction?, digits_of_noDigit hno]
      · rw [show Numeral.fraction? (c :: rest) = (none, c :: rest) by
          unfold Numeral.fraction?
          split
          · rename_i he
            exact absurd (List.cons.inj he).1 hc
          · rfl]
  | @digits ds hds =>
    have hread := digits_of_decimals hds (hdigit (by simp))
    obtain ⟨v, vs, hvs⟩ := List.exists_cons_of_ne_nil (show ds.map Text.digitValue ≠ [] by simp [hds.1])
    simp [fractionRead, Numeral.fraction?, hread, hvs]

theorem exists_fraction (cs : List Char) : ∃ fs rest, cs = fs ++ rest ∧ FractionText fs (fractionRead cs).1 ∧
    (fractionRead cs).2 = rest ∧ (fs ≠ [] → NoDigit rest) ∧ (fs = [] → opensFraction rest = false) := by
  by_cases hopen : opensFraction cs = true
  · obtain ⟨d, rest, rfl, hd⟩ : ∃ d rest, cs = '.' :: d :: rest ∧ Text.isDecimal d = true := by
      unfold opensFraction at hopen
      split at hopen
      · exact ⟨_, _, rfl, hopen⟩
      · cases hopen
    obtain ⟨ds, behind, hcs, hno, hdigits, hread⟩ := exists_digits (d :: rest)
    cases ds with
    | nil =>
      rw [List.nil_append] at hcs
      rw [← hcs] at hno
      rw [hno d rfl] at hd
      cases hd
    | cons d' ds =>
      have hfraction : fractionRead ('.' :: d :: rest) = (some ((d' :: ds).map Text.digitValue), behind) := by
        simp [fractionRead, Numeral.fraction?, hread]
      rw [hfraction]
      exact ⟨'.' :: d' :: ds, behind, by rw [hcs]; rfl, .digits ⟨by simp, hdigits⟩, rfl, fun _ => hno, fun h => by cases h⟩
  · have hopen : opensFraction cs = false := Bool.not_eq_true _ ▸ hopen
    have hread : fractionRead ([] ++ cs) = (none, cs) := fractionRead_text .absent (fun h => absurd rfl h) fun _ => hopen
    rw [List.nil_append] at hread
    rw [hread]
    exact ⟨[], cs, rfl, .absent, rfl, fun h => absurd rfl h, fun _ => hopen⟩

theorem sign_append {sign ds : List Char} (hs : sign = [] ∨ sign = ['-'] ∨ sign = ['+']) (hds : Decimals ds)
    (rest : List Char) : Numeral.sign (sign ++ (ds ++ rest)) = (decide (sign = ['-']), ds ++ rest) := by
  rcases hs with rfl | rfl | rfl
  · obtain ⟨c, cs, rfl⟩ := List.exists_cons_of_ne_nil hds.1
    have hc := hds.2 c List.mem_cons_self
    rw [List.nil_append, List.cons_append]
    unfold Numeral.sign
    split
    · rename_i he
      rw [(List.cons.inj he).1] at hc
      cases hc
    · rename_i he
      rw [(List.cons.inj he).1] at hc
      cases hc
    · rfl
  · rfl
  · rfl

theorem exponent?_text {es : List Char} {exponent : Option Int} (he : ExponentText es exponent) {rest : List Char}
    (hdigit : es ≠ [] → NoDigit rest) (hopen : es = [] → opensExponent rest = false) :
    Numeral.exponent? (es ++ rest) = (exponent, rest) := by
  cases he with
  | absent =>
    have hopen := hopen rfl
    rw [List.nil_append]
    cases rest with
    | nil => rfl
    | cons e rest =>
      by_cases hletter : e = 'e' ∨ e = 'E'
      · have hno : NoDigit (Numeral.sign rest).2 := by
          intro c hc
          simpa [opensExponent, hletter, Option.any, Option.mem_def.mp hc] using hopen
        simp [Numeral.exponent?, digits_of_noDigit hno]
      · simp [Numeral.exponent?, hletter]
  | @digits e sign ds hletter hsign hds =>
    have hread := digits_of_decimals hds (hdigit (by simp))
    obtain ⟨v, vs, hvs⟩ := List.exists_cons_of_ne_nil (show ds.map Text.digitValue ≠ [] by simp [hds.1])
    rw [hvs] at hread
    rw [List.cons_append, List.append_assoc]
    simp only [Numeral.exponent?, if_pos hletter, sign_append hsign hds, hread, hvs, decide_eq_true_eq]

theorem exists_exponent (cs : List Char) : ∃ es rest, cs = es ++ rest ∧ ExponentText es (Numeral.exponent? cs).1 ∧
    (Numeral.exponent? cs).2 = rest ∧ (es ≠ [] → NoDigit rest) ∧ (es = [] → opensExponent rest = false) := by
  by_cases hopen : opensExponent cs = true
  · obtain ⟨e, sign, rest, rfl, hletter, hsign, d, hd, hdigit⟩ : ∃ e sign rest, cs = e :: (sign ++ rest) ∧
        (e = 'e' ∨ e = 'E') ∧ (sign = [] ∨ sign = ['-'] ∨ sign = ['+']) ∧ ∃ d ∈ rest.head?, Text.isDecimal d = true := by
      cases cs with
      | nil => cases hopen
      | cons e rest =>
        simp only [opensExponent, Bool.and_eq_true, Bool.or_eq_true, decide_eq_true_eq, Option.any_eq_true] at hopen
        obtain ⟨hletter, d, hd, hdigit⟩ := hopen
        unfold Numeral.sign at hd
        split at hd
        · exact ⟨e, ['-'], _, rfl, hletter, .inr (.inl rfl), d, hd, hdigit⟩
        · exact ⟨e, ['+'], _, rfl, hletter, .inr (.inr rfl), d, hd, hdigit⟩
        · exact ⟨e, [], rest, rfl, hletter, .inl rfl, d, hd, hdigit⟩
    obtain ⟨ds, behind, rfl, hno, hdigits, -⟩ := exists_digits rest
    have hds : Decimals ds := by
      refine ⟨?_, hdigits⟩
      rintro rfl
      rw [hno d hd] at hdigit
      cases hdigit
    have htext := ExponentText.digits hletter hsign hds
    have hread := exponent?_text htext (fun _ => hno) fun h => by cases h
    have hcs : e :: (sign ++ (ds ++ behind)) = e :: (sign ++ ds) ++ behind := by simp
    rw [hcs, hread]
    exact ⟨_, behind, rfl, htext, rfl, fun _ => hno, fun h => by cases h⟩
  · have hopen : opensExponent cs = false := Bool.not_eq_true _ ▸ hopen
    have hread : Numeral.exponent? ([] ++ cs) = (none, cs) :=
      exponent?_text .absent (fun h => absurd rfl h) fun _ => hopen
    rw [List.nil_append] at hread
    rw [hread]
    exact ⟨[], cs, rfl, .absent, rfl, fun h => absurd rfl h, fun _ => hopen⟩

/-- What stands behind a numeral goes on with none of its parts. -/
structure NumeralEnds (fs es rest : List Char) : Prop where
  digit : NoDigit rest
  fraction : fs = [] → es = [] → opensFraction rest = false
  exponent : es = [] → opensExponent rest = false

theorem noDigit_exponent {es rest : List Char} {exponent : Option Int} (he : ExponentText es exponent)
    (hrest : NoDigit rest) : NoDigit (es ++ rest) := by
  cases he with
  | absent => exact hrest
  | digits hletter =>
    intro c hc
    obtain rfl : _ = c := Option.some.inj hc
    rcases hletter with rfl | rfl <;> rfl

theorem noDigit_fraction {fs rest : List Char} {fraction : Option (List Nat)} (hf : FractionText fs fraction)
    (hrest : NoDigit rest) : NoDigit (fs ++ rest) := by
  cases hf with
  | absent => exact hrest
  | digits =>
    intro c hc
    obtain rfl : '.' = c := Option.some.inj hc
    rfl

theorem opensFraction_exponent {es rest : List Char} {exponent : Option Int} (he : ExponentText es exponent)
    (hrest : es = [] → opensFraction rest = false) : opensFraction (es ++ rest) = false := by
  cases he with
  | absent => exact hrest rfl
  | digits hletter => rcases hletter with rfl | rfl <;> rfl

/-- A written numeral is read as its token, if nothing goes on with it. -/
theorem number_text {ws fs es : List Char} {fraction : Option (List Nat)} {exponent : Option Int} (hw : Decimals ws)
    (hf : FractionText fs fraction) (he : ExponentText es exponent) {rest : List Char} (hrest : NumeralEnds fs es rest) :
    number (ws ++ (fs ++ es) ++ rest) =
      (ofNumeral ⟨false, ws.map Text.digitValue, fraction, exponent⟩, (ws ++ (fs ++ es)).length) := by
  have hbehind := noDigit_exponent he hrest.digit
  have hwhole := digits_of_decimals hw (noDigit_fraction hf hbehind)
  have hfraction := fractionRead_text hf (fun _ => hbehind)
    fun hfs => opensFraction_exponent he (hrest.fraction hfs)
  have hexponent := exponent?_text he (fun _ => hrest.digit) hrest.exponent
  have hcs : ws ++ (fs ++ es) ++ rest = ws ++ (fs ++ (es ++ rest)) := by simp
  rw [hcs, number_eq, hwhole]
  simp only [hfraction, hexponent, Prod.mk.injEq, true_and, List.length_append]
  omega

/-- Every number that is read is a written numeral. -/
theorem exists_numeral {c : Char} {cs : List Char} (hc : Text.isDecimal c = true) : ∃ ws fs es rest fraction exponent,
    c :: cs = ws ++ (fs ++ es) ++ rest ∧ Decimals ws ∧ FractionText fs fraction ∧ ExponentText es exponent ∧
      NumeralEnds fs es rest := by
  obtain ⟨ws, behind, hcs, hno, hws, -⟩ := exists_digits (c :: cs)
  obtain ⟨fs, more, rfl, hf, -, hfdigit, hfopen⟩ := exists_fraction behind
  obtain ⟨es, rest, rfl, he, -, hedigit, heopen⟩ := exists_exponent more
  have hw : Decimals ws := by
    refine ⟨?_, hws⟩
    rintro rfl
    rw [List.nil_append] at hcs
    rw [hno c (by rw [← hcs]; rfl)] at hc
    cases hc
  refine ⟨ws, fs, es, rest, _, _, by rw [hcs]; simp, hw, hf, he, ?_, ?_, heopen⟩
  · -- The last part that is written has taken all the digits.
    by_cases hes : es = []
    · subst hes
      by_cases hfs : fs = []
      · subst hfs
        exact hno
      · exact hfdigit hfs
    · exact hedigit hes
  · rintro rfl rfl
    exact hfopen rfl

/-! ## Between quotes -/

/-- The characters before and the pair remembered do not change what closes a text. -/
theorem closing?_eq (quote : Char) : ∀ (cs : List Char) (n : Nat) (pair : Option Nat),
    closing? quote n pair cs = ((closing? quote 0 none cs).map (n + ·)).or pair
  | [], n, pair => by simp [closing?]
  | [c], n, pair => by
    by_cases hc : c = quote <;> simp [closing?, hc]
  | c :: d :: rest, n, pair => by
    have hrest := closing?_eq quote rest
    have hmore := closing?_eq quote (d :: rest)
    by_cases hc : c = '\\'
    · by_cases hd : d = '\n'
      · simp [closing?, hc, hd]
      · simp only [closing?, hc, hd, if_true, if_false]
        rw [hrest (n + 2), hrest (0 + 2)]
        cases closing? quote 0 none rest <;> simp; omega
    · by_cases hq : c = quote
      · subst hq
        by_cases hd : d = c
        · simp only [closing?, hc, hd, if_true, if_false]
          rw [hrest (n + 2), hrest (0 + 2)]
          cases closing? c 0 none rest <;> simp; omega
        · simp [closing?, hc, hd]
      · rw [closing?_plain hc hq, closing?_plain hc hq, hmore (n + 1), hmore (0 + 1)]
        cases closing? quote 0 none (d :: rest) <;> simp; omega

/-- A quote closes the text, or the first quote of a pair does, behind which nothing closes another. -/
theorem exists_closing (quote : Char) : ∀ (cs : List Char) (m : Nat), closing? quote 0 none cs = some m →
    ∃ body rest, cs = body ++ quote :: rest ∧ body.length = m ∧ QuotedBody quote body ∧
      (rest.head? ≠ some quote ∨ ∃ more, rest = quote :: more ∧ closing? quote 0 none more = none)
  | [], m, h => by cases h
  | [c], m, h => by
    simp only [closing?] at h
    split at h
    · rename_i hc
      obtain rfl : 0 = m := Option.some.inj h
      exact ⟨[], [], by rw [hc]; rfl, rfl, .nil, .inl (by simp)⟩
    · cases h
  | c :: d :: rest, m, h => by
    by_cases hc : c = '\\'
    · subst hc
      by_cases hd : d = '\n'
      · simp [closing?, hd] at h
      · simp only [closing?, hd, if_true, if_false] at h
        rw [closing?_eq, Option.or_none, Option.map_eq_some_iff] at h
        obtain ⟨k, hk, rfl⟩ := h
        obtain ⟨body, behind, rfl, rfl, hbody, hbehind⟩ := exists_closing quote rest k hk
        exact ⟨'\\' :: d :: body, behind, rfl, by simp; omega, .escape hd hbody, hbehind⟩
    · by_cases hq : c = quote
      · subst hq
        by_cases hd : d = c
        · subst hd
          simp only [closing?, hc, if_true, if_false] at h
          rw [closing?_eq] at h
          cases hk : closing? d 0 none rest with
          | none =>
            rw [hk] at h
            obtain rfl : 0 = m := by simpa using h
            exact ⟨[], d :: rest, rfl, rfl, .nil, .inr ⟨rest, rfl, hk⟩⟩
          | some k =>
            obtain ⟨body, behind, rfl, rfl, hbody, hbehind⟩ := exists_closing d rest k hk
            rw [hk] at h
            obtain rfl : 0 + 2 + body.length = m := by simpa using h
            exact ⟨d :: d :: body, behind, rfl, by simp; omega, .pair hbody, hbehind⟩
        · simp only [closing?, hc, hd, if_true, if_false] at h
          obtain rfl : 0 = m := by simpa using h
          exact ⟨[], d :: rest, rfl, rfl, .nil, .inl fun he => hd (Option.some.inj he)⟩
      · rw [closing?_plain hc hq, closing?_eq, Option.or_none, Option.map_eq_some_iff] at h
        obtain ⟨k, hk, rfl⟩ := h
        obtain ⟨body, behind, hcs, rfl, hbody, hbehind⟩ := exists_closing quote (d :: rest) k hk
        exact ⟨c :: body, behind, by rw [hcs]; rfl, by simp; omega, .plain hc hq hbody, hbehind⟩

/-! ## Tokens -/

/-- What stands behind a symbol does not make it a longer one or a comment. -/
def SymbolEnds : Symbol → List Char → Prop
  | .less, rest => rest.head? ≠ some '>' ∧ rest.head? ≠ some '='
  | .greater, rest => rest.head? ≠ some '='
  | .minus, rest => rest.head? ≠ some '-'
  | _, _ => True

/-- The characters are the token, in front of what follows. -/
inductive Spells : List Char → Token → List Char → Prop
  | number {ws fs es rest : List Char} {fraction : Option (List Nat)} {exponent : Option Int} : Decimals ws →
      FractionText fs fraction → ExponentText es exponent → NumeralEnds fs es rest →
      (ofNumeral ⟨false, ws.map Text.digitValue, fraction, exponent⟩).isOverlong (ws ++ (fs ++ es)).length = false →
      Spells (ws ++ (fs ++ es)) (ofNumeral ⟨false, ws.map Text.digitValue, fraction, exponent⟩) rest
  | text {quote : Char} {body rest : List Char} : quote = '\x27' ∨ quote = '\x22' → QuotedBody quote body →
      rest.head? ≠ some quote → Spells (quote :: (body ++ [quote])) (.text (textBetween quote body)) rest
  | quotedName {name rest : List Char} : name ≠ [] → '\x60' ∉ name →
      Spells ('\x60' :: (name ++ ['\x60'])) (.identifier (String.ofList name)) rest
  | name {c : Char} {cs rest : List Char} : StartsName c → (∀ d ∈ cs, isNameChar d = true) →
      (∀ d ∈ rest.head?, isNameChar d = false) → Spells (c :: cs) (ofName (String.ofList (c :: cs))) rest
  | symbol {s : Symbol} {rest : List Char} : SymbolEnds s rest → Spells s.spelling.toList (.symbol s) rest

theorem spells_leftParen (rest : List Char) : Spells ['('] (.symbol .leftParen) rest :=
  .symbol (show SymbolEnds .leftParen rest from trivial)

theorem spells_rightParen (rest : List Char) : Spells [')'] (.symbol .rightParen) rest :=
  .symbol (show SymbolEnds .rightParen rest from trivial)

theorem piece?_symbol {s : Symbol} {rest : List Char} (h : SymbolEnds s rest) :
    ∃ c cs, s.spelling.toList = c :: cs ∧ piece? c (cs ++ rest) = some (.token (.symbol s), cs.length) := by
  cases s with
  | less =>
    obtain ⟨hgreater, hequal⟩ := h
    refine ⟨'<', [], rfl, ?_⟩
    have hs : symbol? '<' rest = some (.less, 0) := by
      unfold symbol?
      split <;> simp_all
    have hdecimal : Text.isDecimal '<' = false := rfl
    simp only [List.nil_append, piece?, hs, hdecimal]
    rfl
  | greater =>
    refine ⟨'>', [], rfl, ?_⟩
    have hs : symbol? '>' rest = some (.greater, 0) := by
      unfold symbol?
      have hequal : rest.head? ≠ some '=' := h
      split <;> simp_all
    have hdecimal : Text.isDecimal '>' = false := rfl
    simp only [List.nil_append, piece?, hs, hdecimal]
    rfl
  | minus =>
    have hminus : rest.head? ≠ some '-' := h
    have hdecimal : Text.isDecimal '-' = false := rfl
    refine ⟨'-', [], rfl, ?_⟩
    simp only [List.nil_append, piece?, hminus, hdecimal]
    rfl
  | _ => exact ⟨_, _, rfl, rfl⟩

/-- What is spelled is read, in one piece. -/
theorem Spells.piece?_eq {src rest : List Char} {t : Token} (h : Spells src t rest) :
    ∃ c cs, src = c :: cs ∧ piece? c (cs ++ rest) = some (.token t, cs.length) := by
  cases h with
  | @number ws fs es _ fraction exponent hw hf he hrest _ =>
    obtain ⟨c, cs, rfl⟩ := List.exists_cons_of_ne_nil hw.1
    refine ⟨c, cs ++ (fs ++ es), rfl, ?_⟩
    have hread := number_text hw hf he hrest
    rw [piece?_of_isDecimal (hw.2 c List.mem_cons_self)]
    rw [List.cons_append, List.cons_append] at hread
    rw [hread]
    rfl
  | @text quote body _ hquote hbody hrest =>
    refine ⟨quote, body ++ [quote], rfl, ?_⟩
    rw [List.append_assoc, List.singleton_append, piece?_quote hquote hbody hrest, List.length_append, List.length_singleton]
  | @quotedName name _ hne hname =>
    refine ⟨'\x60', name ++ ['\x60'], rfl, ?_⟩
    rw [List.append_assoc, List.singleton_append, piece?_backticks hne hname, List.length_append, List.length_singleton]
  | @name c cs _ hc hcs hrest =>
    refine ⟨c, cs, rfl, ?_⟩
    rw [piece?_of_startsName hc, (takeWhile_append_stop hcs hrest).1]
  | symbol hs => exact piece?_symbol hs

theorem Spells.isOverlong_eq {src rest : List Char} {t : Token} (h : Spells src t rest) :
    t.isOverlong src.length = false := by
  cases h with
  | number _ _ _ _ hshort => exact hshort
  | name =>
    unfold ofName
    split <;> rfl
  | _ => rfl

theorem Spells.ne_nil {src rest : List Char} {t : Token} (h : Spells src t rest) : src ≠ [] := by
  obtain ⟨c, cs, rfl, -⟩ := h.piece?_eq
  exact List.cons_ne_nil c cs

theorem spells_symbol {c : Char} {more : List Char} {s : Symbol} {n : Nat} (h : symbol? c more = some (s, n))
    (hminus : ¬(c = '-' ∧ more.head? = some '-')) : ∃ src rest, c :: more = src ++ rest ∧ src.length = n + 1 ∧
      Spells src (.symbol s) rest := by
  unfold symbol? at h
  split at h
  case h_4 hgreater hequal =>
    cases h
    refine ⟨['<'], more, rfl, rfl, .symbol (s := .less) ⟨fun he => ?_, fun he => ?_⟩⟩
    · obtain ⟨ds, rfl⟩ := List.head?_eq_some_iff.mp he
      exact hgreater ds rfl
    · obtain ⟨ds, rfl⟩ := List.head?_eq_some_iff.mp he
      exact hequal ds rfl
  case h_6 hequal =>
    cases h
    refine ⟨['>'], more, rfl, rfl, .symbol (s := .greater) fun he => ?_⟩
    obtain ⟨ds, rfl⟩ := List.head?_eq_some_iff.mp he
    exact hequal ds rfl
  case h_15 =>
    cases h
    exact ⟨['-'], more, rfl, rfl, .symbol (s := .minus) fun he => hminus ⟨rfl, he⟩⟩
  all_goals
    cases h
    try exact ⟨_, _, rfl, rfl, .symbol trivial⟩

theorem spells_number {c : Char} {more : List Char} (hc : Text.isDecimal c = true) {t : Token} {length : Nat}
    (h : number (c :: more) = (t, length)) (hshort : t.isOverlong length = false) :
    ∃ src rest, c :: more = src ++ rest ∧ src.length = length ∧ Spells src t rest := by
  obtain ⟨ws, fs, es, rest, fraction, exponent, hcs, hw, hf, he, hrest⟩ := exists_numeral hc
  rw [hcs, number_text hw hf he hrest] at h
  cases h
  exact ⟨_, rest, hcs, rfl, .number hw hf he hrest hshort⟩

theorem spells_quote {quote : Char} (hquote : quote = '\x27' ∨ quote = '\x22') {more : List Char} {m : Nat}
    (hm : closing? quote 0 none more = some m) (hbehind : ∀ d ds, more.drop (m + 1) = d :: ds → piece? d ds ≠ none) :
    ∃ src rest, quote :: more = src ++ rest ∧ src.length = m + 2 ∧ Spells src (.text (textBetween quote (more.take m))) rest := by
  obtain ⟨body, rest, rfl, rfl, hbody, hrest⟩ := exists_closing quote more m hm
  rw [List.take_left]
  refine ⟨quote :: (body ++ [quote]), rest, by simp, by simp, .text hquote hbody ?_⟩
  -- A quote left over would close nowhere.
  rcases hrest with hrest | ⟨ds, rfl, hclosing⟩
  · exact hrest
  · refine absurd ?_ (hbehind quote ds (by simp [List.drop_append]))
    have hdecimal : Text.isDecimal quote = false := by rcases hquote with rfl | rfl <;> rfl
    rcases hquote with rfl | rfl <;> simp [piece?, hclosing, hdecimal]

theorem spells_backticks {more : List Char} (hne : more.takeWhile (· ≠ '\x60') ≠ [])
    (hmore : more.length ≠ (more.takeWhile (· ≠ '\x60')).length) : ∃ src rest, '\x60' :: more = src ++ rest ∧
      src.length = (more.takeWhile (· ≠ '\x60')).length + 2 ∧
      Spells src (.identifier (String.ofList (more.takeWhile (· ≠ '\x60')))) rest := by
  obtain ⟨name, behind, rfl, hname, hbehind⟩ := exists_first_place '\x60' more
  rw [takeWhile_ne hname hbehind] at hne hmore ⊢
  cases behind with
  | nil => exact absurd (by rw [List.append_nil]) hmore
  | cons d rest =>
    obtain rfl := hbehind d rfl
    exact ⟨'\x60' :: (name ++ ['\x60']), rest, by simp, by simp, .quotedName hne hname⟩

theorem spells_name {c : Char} {more : List Char} (hc : StartsName c) : ∃ src rest, c :: more = src ++ rest ∧
    src.length = (more.takeWhile isNameChar).length + 1 ∧ Spells src (ofName (String.ofList (c :: more.takeWhile isNameChar))) rest := by
  obtain ⟨cs, rest, rfl, hcs, hrest⟩ := exists_stop isNameChar more
  rw [(takeWhile_append_stop hcs hrest).1]
  exact ⟨c :: cs, rest, rfl, rfl, .name hc hcs hrest⟩

theorem length_number_pos {c : Char} (hc : Text.isDecimal c = true) (more : List Char) : 0 < (number (c :: more)).2 := by
  obtain ⟨ws, fs, es, rest, fraction, exponent, hcs, hw, hf, he, hrest⟩ := @exists_numeral c more hc
  rw [hcs, number_text hw hf he hrest]
  exact List.length_pos_of_ne_nil fun h => hw.1 (List.append_eq_nil_iff.mp h).1

/-- What is read as a token is spelled so, if something is read behind it. -/
theorem spells_of_piece? {c : Char} {more : List Char} {t : Token} {n : Nat} (h : piece? c more = some (.token t, n))
    (hshort : t.isOverlong (n + 1) = false)
    (hbehind : ∀ d ds, more.drop n = d :: ds → piece? d ds ≠ none) :
    ∃ src rest, c :: more = src ++ rest ∧ src.length = n + 1 ∧ Spells src t rest := by
  unfold piece? at h
  split at h
  · cases h
  split at h
  · cases h
  split at h
  · cases h
  rename_i hminus
  split at h
  · rename_i hdecimal
    have hpos := length_number_pos hdecimal more
    cases hnumber : number (c :: more) with
    | mk t' length =>
      rw [hnumber] at h hpos
      cases h
      rw [Nat.sub_add_cancel hpos] at hshort ⊢
      exact spells_number hdecimal hnumber hshort
  split at h
  · rename_i hquote
    rw [Option.map_eq_some_iff] at h
    obtain ⟨m, hm, he⟩ := h
    cases he
    exact spells_quote hquote hm hbehind
  split at h
  · rename_i hbacktick
    subst hbacktick
    dsimp only at h
    split at h
    · cases h
    · rename_i hname
      rw [not_or, List.isEmpty_iff] at hname
      cases h
      exact spells_backticks hname.1 hname.2
  split at h
  · rename_i hstart
    cases h
    exact spells_name hstart
  · rw [Option.map_eq_some_iff] at h
    obtain ⟨⟨s, k⟩, hs, he⟩ := h
    cases he
    exact spells_symbol hs hminus

/-! ## What follows -/

/-- The characters that the lexer passes over one by one. -/
def IsSpace (c : Char) : Prop := c = ' ' ∨ c = '\t' ∨ c = '\r' ∨ c = '\n'

instance (c : Char) : Decidable (IsSpace c) := inferInstanceAs (Decidable (c = ' ' ∨ c = '\t' ∨ c = '\r' ∨ c = '\n'))

/-- Texts with which no token goes on, a minus in front of a comment apart. -/
inductive Separates : List Char → Prop
  | nil : Separates []
  | space {c : Char} (cs : List Char) : IsSpace c → Separates (c :: cs)
  | paren (cs : List Char) : Separates (')' :: cs)
  | comment (cs : List Char) : Separates ('-' :: '-' :: cs)

theorem Separates.head_ne {cs : List Char} (h : Separates cs) {d : Char} (hspace : ¬IsSpace d) (hparen : d ≠ ')')
    (hminus : d ≠ '-') : cs.head? ≠ some d := by
  intro he
  cases h with
  | nil => cases he
  | space _ hc =>
    obtain rfl := Option.some.inj he
    exact hspace hc
  | paren => exact hparen (Option.some.inj he).symm
  | comment => exact hminus (Option.some.inj he).symm

/-- What separates tokens begins with no character of a class that holds none of these. -/
theorem Separates.head_class {p : Char → Bool} (hp : [' ', '\t', '\r', '\n', ')', '-'].all (!p ·) = true) {cs : List Char}
    (h : Separates cs) : ∀ c ∈ cs.head?, p c = false := by
  have hnone {d : Char} (hd : d ∈ [' ', '\t', '\r', '\n', ')', '-']) : p d = false := by
    simpa using List.all_eq_true.mp hp d hd
  intro c hc
  cases h with
  | nil => cases hc
  | space _ hspace =>
    obtain rfl := Option.some.inj hc
    rcases hspace with rfl | rfl | rfl | rfl <;> exact hnone (by simp)
  | paren =>
    obtain rfl := Option.some.inj hc
    exact hnone (by simp)
  | comment =>
    obtain rfl := Option.some.inj hc
    exact hnone (by simp)

theorem Separates.noDigit {cs : List Char} (h : Separates cs) : NoDigit cs := h.head_class rfl

theorem noDigit_append {cs ds : List Char} (hcs : NoDigit cs) (hds : NoDigit ds) : NoDigit (cs ++ ds) := by
  cases cs with
  | nil => exact hds
  | cons c cs => exact hcs

theorem NoDigit.of_append {cs ds : List Char} (h : NoDigit (cs ++ ds)) : NoDigit cs := by
  cases cs with
  | nil =>
    intro c hc
    cases hc
  | cons c cs => exact h

theorem opensFraction_of_append {cs ds : List Char} (h : opensFraction (cs ++ ds) = false) : opensFraction cs = false := by
  unfold opensFraction
  split
  · exact h
  · rfl

theorem opensFraction_append {cs ds : List Char} (h : opensFraction cs = false) (hds : Separates ds) :
    opensFraction (cs ++ ds) = false := by
  match cs with
  | [] =>
    cases hds with
    | nil | paren | comment => rfl
    | space _ hc => rcases hc with rfl | rfl | rfl | rfl <;> rfl
  | [c] =>
    unfold opensFraction
    split
    · rename_i d rest hcs
      have hds' : ds = d :: rest := (List.cons.inj hcs).2
      exact hds.noDigit d (by rw [hds']; rfl)
    · rfl
  | c :: d :: cs =>
    unfold opensFraction at h ⊢
    split
    · rename_i d' rest hcs
      obtain ⟨hc, hcs⟩ := List.cons.inj hcs
      obtain ⟨hd, -⟩ := List.cons.inj hcs
      rw [← hd]
      rwa [hc] at h
    · rfl

theorem sign_behind {cs : List Char} (h : cs ≠ []) (ds : List Char) :
    (Numeral.sign (cs ++ ds)).2 = (Numeral.sign cs).2 ++ ds := by
  obtain ⟨c, cs, rfl⟩ := List.exists_cons_of_ne_nil h
  unfold Numeral.sign
  split <;> split <;> simp_all

theorem opensExponent_of_append {cs ds : List Char} (h : opensExponent (cs ++ ds) = false) : opensExponent cs = false := by
  cases cs with
  | nil => rfl
  | cons e cs =>
    by_cases hcs : cs = []
    · subst hcs
      simp [opensExponent, Numeral.sign]
    · simp only [opensExponent, List.cons_append, sign_behind hcs] at h ⊢
      cases hs : (Numeral.sign cs).2 with
      | nil => simp
      | cons d rest => simpa [hs] using h

theorem Separates.no_digit_signed {cs : List Char} (h : Separates cs) : NoDigit (Numeral.sign cs).2 := by
  cases h with
  | nil => exact Separates.nil.noDigit
  | space cs hc => rcases hc with rfl | rfl | rfl | rfl <;> exact (Separates.space cs (by simp [IsSpace])).noDigit
  | paren cs => exact (Separates.paren cs).noDigit
  | comment cs =>
    intro c hc
    obtain rfl := Option.some.inj hc
    rfl

theorem opensExponent_append {cs ds : List Char} (h : opensExponent cs = false) (hds : Separates ds) :
    opensExponent (cs ++ ds) = false := by
  cases cs with
  | nil =>
    cases hds with
    | nil | paren | comment => rfl
    | space _ hc => rcases hc with rfl | rfl | rfl | rfl <;> rfl
  | cons e cs =>
    have hno : ∀ d ∈ (Numeral.sign (cs ++ ds)).2.head?, (e = 'e' || e = 'E') = true → Text.isDecimal d = false := by
      intro d hd hletter
      by_cases hcs : cs = []
      · subst hcs
        exact hds.no_digit_signed d hd
      · rw [sign_behind hcs] at hd
        simp only [opensExponent, hletter, Bool.true_and] at h
        cases hs : (Numeral.sign cs).2 with
        | nil =>
          rw [hs] at hd
          exact hds.noDigit d hd
        | cons d' rest =>
          rw [hs] at h hd
          obtain rfl : d' = d := Option.some.inj hd
          exact h
    simp only [opensExponent, List.cons_append, Bool.and_eq_false_iff]
    cases hletter : (e = 'e' || e = 'E')
    · exact .inl rfl
    · refine .inr ?_
      cases hs : (Numeral.sign (cs ++ ds)).2.head? with
      | none => rfl
      | some d => exact hno d hs hletter

theorem head_append_ne {cs ds : List Char} {d : Char} (hcs : cs.head? ≠ some d) (hds : ds.head? ≠ some d) :
    (cs ++ ds).head? ≠ some d := by
  cases cs with
  | nil => exact hds
  | cons c cs => exact hcs

theorem head_ne_of_append {cs ds : List Char} {d : Char} (h : (cs ++ ds).head? ≠ some d) : cs.head? ≠ some d := by
  cases cs with
  | nil => simp
  | cons c cs => exact h

/-- A token stays one if what follows ends earlier. -/
theorem Spells.of_append {src rest more : List Char} {t : Token} (h : Spells src t (rest ++ more)) : Spells src t rest := by
  cases h with
  | number hw hf he hrest hshort =>
    exact .number hw hf he ⟨hrest.digit.of_append, fun hfs hes => opensFraction_of_append (hrest.fraction hfs hes),
      fun hes => opensExponent_of_append (hrest.exponent hes)⟩ hshort
  | text hq hbody hrest => exact .text hq hbody (head_ne_of_append hrest)
  | quotedName hne hname => exact .quotedName hne hname
  | name hc hcs hrest =>
    refine .name hc hcs fun d hd => hrest d ?_
    cases rest with
    | nil => cases hd
    | cons e rest => exact hd
  | @symbol s _ hs =>
    refine .symbol ?_
    cases s <;> first
      | trivial
      | exact head_ne_of_append hs
      | exact ⟨head_ne_of_append hs.1, head_ne_of_append hs.2⟩

/-- A token stays one if what follows is taken on by something that separates. -/
theorem Spells.append {src rest more : List Char} {t : Token} (h : Spells src t rest) (hmore : Separates more)
    (hminus : t = .symbol .minus → rest = [] → more.head? ≠ some '-') : Spells src t (rest ++ more) := by
  have hne : ∀ d, ¬IsSpace d → d ≠ ')' → d ≠ '-' → rest.head? ≠ some d → (rest ++ more).head? ≠ some d :=
    fun d h1 h2 h3 hd => head_append_ne hd (hmore.head_ne h1 h2 h3)
  cases h with
  | number hw hf he hrest hshort =>
    exact .number hw hf he ⟨noDigit_append hrest.digit hmore.noDigit,
      fun hfs hes => opensFraction_append (hrest.fraction hfs hes) hmore,
      fun hes => opensExponent_append (hrest.exponent hes) hmore⟩ hshort
  | text hq hbody hrest =>
    refine .text hq hbody ?_
    rcases hq with rfl | rfl
    · exact hne _ (by decide) (by decide) (by decide) hrest
    · exact hne _ (by decide) (by decide) (by decide) hrest
  | quotedName hne hname => exact .quotedName hne hname
  | name hc hcs hrest =>
    refine .name hc hcs fun d hd => ?_
    cases rest with
    | nil => exact hmore.head_class rfl d hd
    | cons e rest => exact hrest d hd
  | @symbol s _ hs =>
    refine .symbol ?_
    cases s with
    | less => exact ⟨hne _ (by decide) (by decide) (by decide) hs.1, hne _ (by decide) (by decide) (by decide) hs.2⟩
    | greater => exact hne _ (by decide) (by decide) (by decide) hs
    | minus =>
      show (rest ++ more).head? ≠ some '-'
      cases rest with
      | nil => exact hminus rfl rfl
      | cons e rest => exact hs
    | _ => trivial

theorem Spells.of_symbol {src rest : List Char} {s : Symbol} (h : Spells src (.symbol s) rest) : src = s.spelling.toList := by
  generalize ht : Token.symbol s = t at h
  cases h with
  | number =>
    unfold ofNumeral at ht
    split at ht <;> cases ht
  | name =>
    unfold ofName at ht
    split at ht <;> cases ht
  | symbol =>
    obtain rfl := Token.symbol.inj ht
    rfl
  | text | quotedName => cases ht

/-- Only what is not passed over begins a token. -/
theorem Spells.head {c : Char} {cs rest : List Char} {t : Token} (h : Spells (c :: cs) t rest) :
    ¬IsSpace c ∧ ¬(c = '-' ∧ (cs ++ rest).head? = some '-') := by
  obtain ⟨_, _, he, hp⟩ := h.piece?_eq
  cases he
  constructor
  · intro hc
    rcases hc with rfl | rfl | rfl | rfl <;> simp [piece?] at hp
  · rintro ⟨rfl, hminus⟩
    simp [piece?, hminus] at hp

/-- One text begins with one token at most. -/
theorem Spells.unique {src src' rest rest' : List Char} {t t' : Token} (h : Spells src t rest) (h' : Spells src' t' rest')
    (he : src ++ rest = src' ++ rest') : src = src' ∧ t = t' ∧ rest = rest' := by
  obtain ⟨c, cs, rfl, hp⟩ := h.piece?_eq
  obtain ⟨c', cs', rfl, hp'⟩ := h'.piece?_eq
  obtain ⟨rfl, hcs⟩ := List.cons.inj he
  change cs ++ rest = cs' ++ rest' at hcs
  rw [hcs, hp'] at hp
  simp only [Option.some.injEq, Prod.mk.injEq, Piece.token.injEq] at hp
  obtain ⟨ht, hlength⟩ := hp
  obtain ⟨rfl, rfl⟩ := List.append_inj hcs hlength.symm
  exact ⟨rfl, ht.symm, rfl⟩

end JsonTables.Token
