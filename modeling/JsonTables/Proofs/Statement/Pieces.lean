/-
  JsonTables.Proofs.Statement.Pieces — what the statements of a script mean.

  A statement of a script is a piece of it, in which no semicolon stands outside parentheses. So nothing
  but white space is taken off its ends before it is parsed, and a line that holds nothing but a comment may
  be taken out, unless it stands in a list of hints.

  Proved:
  - `means_body`: what is taken off the ends of a piece does not matter.
  - `pieces_without_comment`: the pieces of a text mean what they mean without the comment.
-/

import JsonTables.Proofs.Statement.Gaps

namespace JsonTables.Statement

open Grammar Token

/-! ## Pieces -/

/-- No semicolon stands outside parentheses. -/
def Uncut (depth : Nat) (ts : List Token) : Prop :=
  ∀ us vs, ts = us ++ .symbol .semicolon :: vs → depthAfter depth us ≠ 0

theorem uncut_cons {t : Token} {ts : List Token} {depth : Nat} (ht : ¬(t = .symbol .semicolon ∧ depth = 0))
    (h : Uncut (depthAfter depth [t]) ts) : Uncut depth (t :: ts) := by
  intro us vs hcut
  cases us with
  | nil =>
    obtain ⟨rfl, rfl⟩ := List.cons.inj hcut
    exact fun hdepth => ht ⟨rfl, hdepth⟩
  | cons u us =>
    obtain ⟨rfl, rfl⟩ := List.cons.inj hcut
    have hrest := h us vs rfl
    rwa [← depthAfter_append] at hrest

/-- Between two cuts nothing is cut. -/
theorem uncut_of_runs {depth : Nat} {ts : List Token} : ∃ r rs, TopLevel.runs .semicolon depth ts = r :: rs ∧
    Uncut depth r ∧ ∀ r' ∈ rs, Uncut 0 r' := by
  induction ts generalizing depth with
  | nil => exact ⟨[], [], rfl, fun us vs h => by simp at h, by simp⟩
  | cons t ts ih =>
    rw [TopLevel.runs]
    split
    · obtain ⟨r, rs, hruns, hr, hrs⟩ := @ih 0
      refine ⟨[], r :: rs, by rw [hruns], fun us vs h => by simp at h, fun r' hr' => ?_⟩
      rcases List.mem_cons.mp hr' with rfl | hr'
      · exact hr
      · exact hrs r' hr'
    · rename_i hcut
      obtain ⟨r, rs, hruns, hr, hrs⟩ := @ih (depthAfter depth [t])
      exact ⟨t :: r, rs, by rw [hruns, List.modifyHead_cons], uncut_cons hcut hr, hrs⟩

theorem uncut_of_mem_runs {r ts : List Token} (h : r ∈ TopLevel.runs .semicolon 0 ts) : Uncut 0 r := by
  obtain ⟨r', rs, hruns, hr, hrs⟩ := @uncut_of_runs 0 ts
  rw [hruns] at h
  rcases List.mem_cons.mp h with rfl | h
  · exact hr
  · exact hrs r h

/-! ## What is taken off the ends -/

theorem depthAfter_of_openAfter {ts : List Token} {depth n : Nat} (h : openAfter depth ts = some n) :
    depthAfter (depth + 1) ts = n + 1 := by
  induction ts generalizing depth with
  | nil =>
    obtain rfl := Option.some.inj h
    rfl
  | cons t ts ih =>
    by_cases hr : t = .symbol .rightParen
    · subst hr
      rw [openAfter] at h
      split at h
      · cases h
      · rename_i hdepth
        rw [depthAfter, Nat.add_sub_cancel, ← ih h, Nat.sub_add_cancel (by omega)]
    · by_cases hl : t = .symbol .leftParen
      · subst hl
        exact ih h
      · rw [openAfter_other hr hl] at h
        rw [depthAfter_other hr hl, ih h]

theorem depthAfter_semicolons (depth k : Nat) : depthAfter depth (List.replicate k (.symbol .semicolon)) = depth := by
  induction k with
  | zero => rfl
  | succ k ih => exact ih

section

variable {text : List Char} {ts : List Token} {plan : Plan} {unknown : List String}

/-- A statement closes all its parentheses. -/
theorem Means.depthAfter_eq (h : Means text plan unknown) (hts : Scans text ts []) : depthAfter 0 ts = 0 := by
  rcases h.tokens with ⟨us, hus, hsentence, -⟩ | ⟨us, inside, word, k, plan', hsentence, hopen, hscans⟩
  · obtain rfl := hts.unique hus
    exact composable_balanced.sentence hsentence 0
  · obtain rfl := hts.unique hscans
    have hbalanced := composable_balanced.sentence hsentence 0
    have hlist : depthAfter 1 inside = 1 := depthAfter_of_openAfter hopen
    simp [depthAfter_append, hbalanced, depthAfter, hlist, depthAfter_semicolons]

/-- The same tokens at the end of a longer text mean the same. -/
theorem means_append {more : List Char} (hts : Scans text ts []) (hmore : Scans (text ++ more) ts []) :
    Means (text ++ more) plan unknown ↔ Means text plan unknown := by
  have hlonger {plan : Plan} {unknown : List String} (h : Means text plan unknown) : Means (text ++ more) plan unknown :=
    Means.behind (j := 0) h hts (by simpa using hmore) fun hne => absurd rfl hne
  refine ⟨fun h => ?_, hlonger⟩
  rcases h.tokens with ⟨us, hus, hsentence, rfl⟩ | ⟨us, inside, word, k, plan', hsentence, hopen, hscans⟩
  · obtain rfl := hmore.unique hus
    exact .bare hts hsentence
  · obtain rfl := hmore.unique hscans
    obtain ⟨before, list, behind, rfl, hbefore, hlist, hbehind⟩ := hts.exists_parens
    rw [List.append_nil] at hbefore hlist
    have hshort := Means.hinted hbefore hsentence hlist hopen hbehind
    obtain ⟨rfl, rfl⟩ := h.unique (hlonger hshort)
    exact hshort

theorem means_spaces {spaces : List Char} (hspaces : ∀ c ∈ spaces, IsSpace c) :
    Means (spaces ++ text) plan unknown ↔ Means text plan unknown := by
  have hscans : Scans spaces [] text := scans_of_forall hspaces
  have hlist : ¬InHints [] := by
    rintro ⟨before, word, inside, h, -⟩
    simp at h
  have hstop {cs : List Char} : Scans [] [] cs := .stop
  constructor
  · intro h
    have hbare : Means ([] ++ ([] ++ text)) plan unknown := Means.replace_gap h hstop hstop hscans hstop hlist
    exact hbare
  · intro h
    have hbare : Means ([] ++ ([] ++ text)) plan unknown := h
    have hlonger : Means ([] ++ (spaces ++ text)) plan unknown := hbare.replace_gap hstop hstop hstop hscans hlist
    exact hlonger

/-- Of the tokens of a text only semicolons at the end are taken off. -/
theorem scans_body (hts : Scans text ts []) :
    ∃ us k, ts = us ++ List.replicate k (.symbol .semicolon) ∧ Scans (body text) us [] := by
  obtain ⟨spaces, -, -, hstart⟩ := hts.exists_start
  exact hstart.dropEnd

/-- What is taken off the ends of a piece does not change what it means. -/
theorem means_body (hts : Scans text ts []) (huncut : Uncut 0 ts) :
    Means (body text) plan unknown ↔ Means text plan unknown := by
  obtain ⟨spaces, htext, hspaces, hstart⟩ := hts.exists_start
  obtain ⟨us, k, rfl, hus⟩ := hstart.dropEnd
  change Scans (body text) us [] at hus
  obtain ⟨tail, htail, -⟩ := Text.exists_end isEnd (Text.trimStart text)
  change _ = body text ++ tail at htail
  have hwhole : Means text plan unknown ↔ Means (body text ++ tail) plan unknown := by
    have hfront := @means_spaces (Text.trimStart text) plan unknown spaces hspaces
    rwa [← htext, htail] at hfront
  rw [hwhole]
  rw [htail] at hstart
  -- A statement is closed, so a semicolon behind it would have been cut at.
  cases k with
  | zero =>
    rw [List.replicate_zero, List.append_nil] at hstart
    exact (means_append hus hstart).symm
  | succ k =>
    have hcut := huncut us _ rfl
    constructor
    · exact fun h => absurd (h.depthAfter_eq hus) hcut
    · intro h
      have hdepth := h.depthAfter_eq hstart
      rw [depthAfter_append, depthAfter_semicolons] at hdepth
      exact absurd hdepth hcut

end

/-- White space around a text does not count. -/
theorem body_trim (text : List Char) : body (Text.trim text) = body text := by
  obtain ⟨spaces, htext, hspaces⟩ := Text.exists_end Text.isBlank (Text.trimStart text)
  have hall : spaces.all (fun c => c = ';' || Text.isBlank c) = true :=
    List.all_eq_true.mpr fun c hc => by simp [hspaces c hc]
  calc body (Text.trim text)
      = Text.dropEndWhile (fun c => c = ';' || Text.isBlank c) (Text.trim text) := by rw [body, Text.trimStart_trim]
    _ = Text.dropEndWhile (fun c => c = ';' || Text.isBlank c) (Text.trim text ++ spaces) := by
      rw [Text.dropEndWhile_append, if_pos hall]
    _ = body text := by rw [body, show Text.trim text ++ spaces = Text.trimStart text from htext.symm]

/-! ## Comments -/

/-- A line begins behind the text. -/
def StartsLine (cs : List Char) : Prop := cs = [] ∨ ∃ ds, cs = ds ++ ['\n']

/-- What ends with a line is read as it is, whatever follows. -/
theorem scans_of_startsLine {cs rest : List Char} {ts : List Token} (hcs : StartsLine cs) (h : Scans cs ts rest)
    (rest' : List Char) : Scans cs ts rest' := by
  rcases hcs with rfl | ⟨ds, rfl⟩
  · rw [h.tokens_of_nil]
    exact .stop
  · have hds : Scans ds ts [] := h.of_blank rfl
    have hline : Scans ['\n'] [] rest' := .space (by simp [IsSpace]) .stop
    simpa using (hds.line rest').append hline

theorem StartsLine.not_behindMinus {cs rest : List Char} (h : StartsLine cs) : ¬BehindMinus cs rest := by
  rintro ⟨as, ts, rfl, -⟩
  rcases h with hnil | ⟨ds, hds⟩
  · simp at hnil
  · have hlast := (List.append_singleton_inj.mp hds).2
    simp at hlast

section

variable {front comment rest : List Char} {ts us : List Token}

/-- Outside the list of hints a line of comment may be taken out. -/
theorem means_without_comment (hline : StartsLine front) (hfront : Scans front ts []) (hcomment : Filler comment)
    (hlist : ¬InHints ts) (plan : Plan) (unknown : List String) :
    Means (front ++ (comment ++ rest)) plan unknown ↔ Means (front ++ rest) plan unknown := by
  obtain ⟨as, gap, rfl, hgap, hgap', has, has'⟩ := (scans_of_startsLine hline hfront rest).exists_place hcomment
    fun hminus => absurd hminus hline.not_behindMinus
  have has' : Scans as ts (gap ++ comment ++ rest) := by simpa using has'
  constructor
  · intro h
    have hlonger : Means (as ++ (gap ++ comment ++ rest)) plan unknown := by simpa using h
    simpa using hlonger.replace_gap has' has hgap' hgap hlist
  · intro h
    have hshorter : Means (as ++ (gap ++ rest)) plan unknown := by simpa using h
    simpa using hshorter.replace_gap has has' hgap hgap' hlist

/-- Two texts with the same tokens that mean the same to the parser. -/
structure Alike (text text' : List Char) : Prop where
  tokens : ∃ ts, Scans text ts [] ∧ Scans text' ts []
  same (plan : Plan) (unknown : List String) : Means (body text) plan unknown ↔ Means (body text') plan unknown

theorem Alike.refl {text : List Char} {ts : List Token} (h : Scans text ts []) : Alike text text :=
  ⟨⟨ts, h, h⟩, fun _ _ => Iff.rfl⟩

theorem Alike.symm {a b : List Char} (h : Alike a b) : Alike b a := by
  obtain ⟨ts, ha, hb⟩ := h.tokens
  exact ⟨⟨ts, hb, ha⟩, fun plan unknown => (h.same plan unknown).symm⟩

theorem Alike.trans {a b c : List Char} (h : Alike a b) (h' : Alike b c) : Alike a c := by
  obtain ⟨ts, ha, hb⟩ := h.tokens
  obtain ⟨us, hb', hc⟩ := h'.tokens
  obtain rfl := hb.unique hb'
  exact ⟨⟨ts, ha, hc⟩, fun plan unknown => (h.same plan unknown).trans (h'.same plan unknown)⟩

/-- White space around a text changes nothing. -/
theorem Alike.of_trim_eq {a b : List Char} (ha : Scans a ts []) (hb : Scans b ts []) (h : Text.trim a = Text.trim b) : Alike a b := by
  refine ⟨⟨ts, ha, hb⟩, fun plan unknown => ?_⟩
  rw [← body_trim a, ← body_trim b, h]

open TopLevel in
/-- The last piece of what ends with a line does. -/
theorem startsLine_of_pieces {before : List (List Char)} {piece : List Char} (hline : StartsLine front)
    (hfront : Scans front ts []) (hts : ∀ t ∈ ts, PlainName t)
    (hpieces : pieces [';'] .plain 0 [] front = before ++ [piece]) : StartsLine piece := by
  rcases hline with rfl | ⟨ds, rfl⟩
  · have hempty : [] ++ [[]] = before ++ [piece] := hpieces
    exact .inl (List.append_singleton_inj.mp hempty).2.symm
  · have hds : Scans ds ts [] := hfront.of_blank rfl
    have hend : Scans ['\n'] [] [] := .space (by simp [IsSpace]) .stop
    obtain ⟨xs, x, hxs⟩ := (List.eq_nil_or_concat _).resolve_left (pieces_ne_nil .semicolon hds hts 0)
    rw [pieces_append .semicolon (hds.line []) hts, pieces_gap .semicolon hend, hxs, List.concat_eq_append, glue_concat] at hpieces
    exact .inr ⟨x, (List.append_singleton_inj.mp hpieces).2.symm⟩

open TopLevel in
/-- Without a line of comment the pieces of a text mean what they mean with it. -/
theorem pieces_without_comment (hline : StartsLine front) (hfront : Scans front ts []) (hcomment : Filler comment)
    (hrest : Scans rest us []) (hts : ∀ t ∈ ts, PlainName t) (hus : ∀ t ∈ us, PlainName t)
    (hlist : ∀ run ∈ (runs .semicolon 0 ts).getLast?, ¬InHints run) :
    List.Forall₂ Alike (pieces [';'] .plain 0 [] (front ++ (comment ++ rest))) (pieces [';'] .plain 0 [] (front ++ rest)) := by
  obtain ⟨before, piece, piece', behind, run, run', hpieces, hlast, hmem, hpiece, hpiece', hwhole⟩ :=
    exists_middle_piece .semicolon hfront hrest hts hus
  obtain ⟨hwith, hscans⟩ := hwhole comment (hcomment.scans rest) (scans_of_startsLine hline hfront _)
  obtain ⟨hwithout, hscans'⟩ := hwhole [] .stop (scans_of_startsLine hline hfront _)
  simp only [List.nil_append] at hwithout hscans'
  have huncut : Uncut 0 (run ++ run') := uncut_of_mem_runs hmem
  have hstart := startsLine_of_pieces hline hfront hts hpieces
  have hall : ∀ x ∈ before ++ (piece ++ piece') :: behind, Alike x x := by
    intro x hx
    rw [← hwithout] at hx
    obtain ⟨ts, hts⟩ := exists_scans_of_mem_pieces .semicolon ((scans_of_startsLine hline hfront rest).join hrest)
      (fun t ht => (List.mem_append.mp ht).elim (hts t) (hus t)) hx
    exact .refl hts
  rw [hwith, hwithout]
  refine List.rel_append (List.forall₂_same.mpr fun x hx => hall x (by simp [hx]))
    (.cons ⟨⟨_, hscans, hscans'⟩, fun plan unknown => ?_⟩ (List.forall₂_same.mpr fun x hx => hall x (by simp [hx])))
  rw [means_body hscans huncut, means_body hscans' huncut]
  exact means_without_comment hstart hpiece hcomment (hlist run hlast) plan unknown

end

end JsonTables.Statement
