/-
  JsonTables.Proofs.Script — the statements of a script and its source texts.

  The source texts of a script are what stands between its top-level semicolons, as it is written. The
  statements that are carried out are cut from the script without its comment lines. Where every line that
  looks like a comment begins between two tokens, outside the lists of hints, such lines go one by one, the
  last first, and no piece changes what it means. So statements and source texts go together one by one.

  Proved:
  - `between_eq_pieces`: the source texts are the pieces of the script.
  - `pieces_dropComments`: the pieces without the comment lines mean what the pieces with them mean.
  - `sources_statements`: statements and source texts in pairs.
-/

import JsonTables.Proofs.Expr.Text
import JsonTables.Proofs.Statement.Pieces
import JsonTables.Proofs.Token.Places
import JsonTables.TopLevel

namespace JsonTables.Script

open Statement Token TopLevel

/-! ## Source texts -/

/-- The texts between the top-level semicolons among some lexemes; the text begins at a position. -/
def between (position : Nat) (text : List Char) : List (Lexeme × Nat) → List (List Char)
  | [] => [text]
  | (x, depth) :: rest =>
    if x.isSymbol .semicolon && depth == 0 then
      text.take (x.position - position) :: between (x.position + 1) (text.drop (x.position + 1 - position)) rest
    else between position text rest

/-- Whether a text holds a token. -/
def holdsToken (text : List Char) : Bool :=
  match Token.lex text with
  | .ok (_ :: _) => true
  | _ => false

/-- The source texts of a script that hold a token. -/
def sources (text : List Char) (lexemes : List Lexeme) : List String :=
  ((between 0 text (withDepth 0 lexemes)).filter holdsToken).map String.ofList

theorem holdsToken_eq {text : List Char} {ts : List Token} (h : Scans text ts []) : holdsToken text = !ts.isEmpty := by
  obtain ⟨xs, hlex, rfl⟩ := h.lex
  rw [holdsToken, hlex]
  cases xs <;> rfl

/-- Text in front of all the lexemes belongs to the first of the texts. -/
theorem between_append {src cs : List Char} {position depth : Nat} {xs : List Lexeme}
    (h : ∀ x ∈ xs, position + src.length ≤ x.position) :
    between position (src ++ cs) (withDepth depth xs) =
      (between (position + src.length) cs (withDepth depth xs)).modifyHead (src ++ ·) := by
  have hpairs : ∀ p ∈ withDepth depth xs, position + src.length ≤ p.1.position := fun p hp => h p.1 (mem_of_mem_withDepth hp)
  generalize withDepth depth xs = ps at hpairs
  clear h
  induction ps with
  | nil => rfl
  | cons p ps ih =>
    have hp := hpairs p List.mem_cons_self
    rw [between, between]
    split
    · rw [List.modifyHead_cons]
      have htake : (src ++ cs).take (p.1.position - position) = src ++ cs.take (p.1.position - (position + src.length)) := by
        rw [List.take_append, List.take_of_length_le (by omega), Nat.sub_add_eq]
      have hdrop : (src ++ cs).drop (p.1.position + 1 - position) = cs.drop (p.1.position + 1 - (position + src.length)) := by
        rw [List.drop_append, List.drop_eq_nil_of_le (by omega), List.nil_append]
        congr 1
        omega
      rw [htake, hdrop]
    · exact ih fun q hq => hpairs q (List.mem_cons_of_mem p hq)

theorem between_cons (position depth : Nat) (text : List Char) (x : Lexeme) (xs : List Lexeme) :
    between position text (withDepth depth (x :: xs)) =
      if x.token = .symbol .semicolon ∧ depth = 0 then
        text.take (x.position - position) :: between (x.position + 1) (text.drop (x.position + 1 - position)) (withDepth 0 xs)
      else between position text (withDepth (depthAfter depth [x.token]) xs) := by
  by_cases hr : x.token = .symbol .rightParen
  · simp [withDepth, between, Lexeme.isSymbol, hr, depthAfter]
  · by_cases hl : x.token = .symbol .leftParen
    · simp [withDepth, between, Lexeme.isSymbol, hl, depthAfter]
    · rw [withDepth_cons hr hl, between, depthAfter_other hr hl, depthAfter]
      by_cases hcut : x.token = .symbol .semicolon ∧ depth = 0
      · obtain ⟨hs, rfl⟩ := hcut
        simp [Lexeme.isSymbol, hs]
      · rw [if_neg hcut, if_neg (by simpa [Lexeme.isSymbol] using hcut)]

/-- By induction on the lexer's run: a gap or a token that is no cut goes to the front of the first piece. -/
theorem between_pieces {position line : Nat} {cs : List Char} {xs : List Lexeme} (h : Lexes position line cs xs)
    (hnames : ∀ x ∈ xs, PlainName x.token) (depth : Nat) :
    between position cs (withDepth depth xs) = pieces [';'] .plain depth [] cs := by
  induction h generalizing depth with
  | stop => rfl
  | @space position line c cs xs hc hcs ih =>
    rw [pieces_space .semicolon hc, ← ih hnames]
    exact @between_append [c] cs position depth xs fun x hx => (hcs.inPlace.within x hx).1
  | @comment position line body cs xs hbody hline hcs ih =>
    rw [pieces_comment hbody hline, ← ih hnames]
    exact @between_append ('-' :: '-' :: body) cs position depth xs fun x hx => (hcs.inPlace.within x hx).1
  | @token position line src cs t xs hspells hcs ih =>
    obtain ⟨ht, hrest⟩ := List.forall_mem_cons.mp hnames
    rw [between_cons, pieces_spelled .semicolon hspells ht]
    split
    · rename_i hcut
      obtain ⟨rfl, rfl⟩ := hcut
      obtain rfl : src = [';'] := hspells.of_symbol
      simp only [Nat.sub_self, List.take_zero, Nat.add_sub_cancel_left]
      exact congrArg _ (ih hrest _)
    · rw [between_append fun x hx => (hcs.inPlace.within x hx).1, ih hrest]

theorem between_eq_pieces {text : List Char} {lexemes : List Lexeme} (h : Token.lex text = .ok lexemes)
    (hnames : ∀ t ∈ lexemes.map (·.token), PlainName t) :
    between 0 text (withDepth 0 lexemes) = pieces [';'] .plain 0 [] text :=
  between_pieces (lexFrom_eq_ok_iff.mp h) (List.forall_mem_map.mp hnames) 0

/-! ## Lines -/

/-- Some lines, each with its end. -/
def unlines (lines : List (List Char)) : List Char := lines.flatMap (· ++ ['\n'])

theorem unlines_splitOn (text : List Char) : unlines (Text.splitOn '\n' text) = text ++ ['\n'] := by
  rw [splitOn_eq, unlines, ← intercalate_append_sep '\n' (List.splitOn_ne_nil '\n' text), List.intercalate_splitOn]

/-- A line that holds nothing but a comment, with its end, stands between tokens. -/
theorem filler_of_isComment {line rest : List Char} {ts : List Token} (hline : '\n' ∉ line) (hcomment : isComment line = true)
    (h : Scans (line ++ '\n' :: rest) ts []) : Filler (line ++ ['\n']) := by
  induction line with
  | nil => cases hcomment
  | cons c line ih =>
    by_cases hblank : Text.isBlank c = true
    · have hspace : IsSpace c := h.isSpace hblank
      have hrest : isComment line = true := by
        rw [isComment, ← @Text.trim_append_left [c] (by simpa using hblank)]
        exact hcomment
      exact .space hspace (ih (fun hmem => hline (List.mem_cons_of_mem c hmem)) hrest (h.of_space hspace))
    · rw [isComment, Text.trim_cons (by simpa using hblank)] at hcomment
      obtain ⟨spaces, hspaces, -⟩ := Text.exists_end Text.isBlank line
      change line = Text.trimEnd line ++ spaces at hspaces
      cases hend : Text.trimEnd line with
      | nil => simp [hend] at hcomment
      | cons d body =>
        obtain ⟨rfl, rfl⟩ : '-' = c ∧ '-' = d := by simpa [hend] using hcomment
        rw [hspaces, hend] at hline ⊢
        have hbody : '\n' ∉ body ++ spaces := by
          intro hmem
          exact hline (by simpa using hmem)
        simpa using Filler.comment hbody .nil

/-- Every line among these that holds nothing but a comment begins behind a whole number of tokens, outside the
lists of hints. -/
def CommentsApart (front : List Char) (lines : List (List Char)) : Prop :=
  ∀ before line after, lines = before ++ line :: after → isComment line = true →
    ∃ ts, Scans (front ++ unlines before) ts [] ∧ ∀ run ∈ (runs .semicolon 0 ts).getLast?, ¬InHints run

theorem CommentsApart.tail {front line : List Char} {lines : List (List Char)} (h : CommentsApart front (line :: lines)) :
    CommentsApart (front ++ (line ++ ['\n'])) lines := by
  rintro before comment after rfl hcomment
  simpa [unlines] using h (line :: before) comment after rfl hcomment

theorem alike_trans {as bs cs : List (List Char)} (h : List.Forall₂ Alike as bs) (h' : List.Forall₂ Alike bs cs) :
    List.Forall₂ Alike as cs := by
  induction h generalizing cs with
  | nil => exact h'
  | cons hab _ ih =>
    cases h' with
    | cons hbc h' => exact .cons (hab.trans hbc) (ih h')

theorem alike_pieces {text : List Char} {ts : List Token} (h : Scans text ts []) (hts : ∀ t ∈ ts, PlainName t) :
    List.Forall₂ Alike (pieces [';'] .plain 0 [] text) (pieces [';'] .plain 0 [] text) := by
  refine List.forall₂_same.mpr fun piece hpiece => ?_
  obtain ⟨run, hrun⟩ := exists_scans_of_mem_pieces .semicolon h hts hpiece
  exact .refl hrun

/-- The pieces of lines mean what they mean without the lines that hold nothing but a comment. -/
theorem pieces_without_comments {front : List Char} {lines : List (List Char)} {ts : List Token} (hline : StartsLine front)
    (hlines : ∀ line ∈ lines, '\n' ∉ line) (h : Scans (front ++ unlines lines) ts []) (hts : ∀ t ∈ ts, PlainName t)
    (happart : CommentsApart front lines) :
    Scans (front ++ unlines (lines.filter (!isComment ·))) ts [] ∧
      List.Forall₂ Alike (pieces [';'] .plain 0 [] (front ++ unlines lines))
        (pieces [';'] .plain 0 [] (front ++ unlines (lines.filter (!isComment ·)))) := by
  induction lines generalizing front with
  | nil => exact ⟨h, alike_pieces h hts⟩
  | cons line lines ih =>
    have hcons (lines : List (List Char)) : front ++ unlines (line :: lines) = front ++ (line ++ ['\n']) ++ unlines lines := by
      rw [List.append_assoc]
      rfl
    rw [hcons] at h ⊢
    obtain ⟨hkept, halike⟩ := ih (.inr ⟨front ++ line, by simp⟩) (fun l hl => hlines l (List.mem_cons_of_mem _ hl)) h happart.tail
    by_cases hcomment : isComment line = true
    · rw [List.filter_cons_of_neg (by simp [hcomment])]
      obtain ⟨us, hfront, hlist⟩ := happart [] line lines rfl hcomment
      rw [unlines, List.flatMap_nil, List.append_nil] at hfront
      rw [List.append_assoc front _ (unlines (lines.filter _))] at hkept halike
      -- The comment stands between the tokens in front of it and the tokens of what is kept.
      obtain ⟨vs, rfl, hrest⟩ := (scans_of_startsLine hline hfront _).behind hkept
      have hfiller : Filler (line ++ ['\n']) :=
        filler_of_isComment (hlines line List.mem_cons_self) hcomment (by simpa using hrest)
      obtain ⟨ws, rfl, hwithout⟩ := (hfiller.scans _).behind hrest
      have hremoved := pieces_without_comment hline hfront hfiller hwithout (fun t ht => hts t (by simp [ht]))
        (fun t ht => hts t (by simp [ht])) hlist
      exact ⟨(scans_of_startsLine hline hfront _).join hwithout, alike_trans halike hremoved⟩
    · rw [List.filter_cons_of_pos (by simp [hcomment]), hcons]
      exact ⟨hkept, halike⟩

/-- The end of the last line changes nothing. -/
theorem pieces_line {text : List Char} {ts : List Token} (h : Scans text ts []) (hts : ∀ t ∈ ts, PlainName t) :
    List.Forall₂ Alike (pieces [';'] .plain 0 [] text) (pieces [';'] .plain 0 [] (text ++ ['\n'])) := by
  have hend : Scans ['\n'] [] [] := .space (by simp [IsSpace]) .stop
  obtain ⟨before, piece, hpieces⟩ := (List.eq_nil_or_concat _).resolve_left (pieces_ne_nil .semicolon h hts 0)
  rw [pieces_append .semicolon (h.line []) hts, pieces_gap .semicolon hend, hpieces, List.concat_eq_append, glue_concat]
  have hscans {x : List Char} (hx : x ∈ before ++ [piece]) : ∃ run, Scans x run [] := by
    refine exists_scans_of_mem_pieces .semicolon h hts ?_
    rwa [hpieces, List.concat_eq_append]
  obtain ⟨run, hrun⟩ := hscans (List.mem_append_right _ List.mem_cons_self)
  refine List.rel_append (List.forall₂_same.mpr fun x hx => ?_) (.cons (.of_trim_eq hrun ?_ ?_) .nil)
  · obtain ⟨run, hrun⟩ := hscans (List.mem_append_left _ hx)
    exact .refl hrun
  · simpa using (hrun.line []).join hend
  · exact (Text.trim_append_right (by simp [Text.isBlank]) piece).symm

/-- The pieces of a script mean what they mean without its lines of comment. -/
theorem pieces_dropComments {text : List Char} {ts : List Token} (h : Scans text ts []) (hts : ∀ t ∈ ts, PlainName t)
    (happart : CommentsApart [] (Text.splitOn '\n' text)) :
    List.Forall₂ Alike (pieces [';'] .plain 0 [] text) (pieces [';'] .plain 0 [] (dropComments text)) := by
  have hend : Scans ['\n'] [] [] := .space (by simp [IsSpace]) .stop
  have hwhole : Scans (unlines (Text.splitOn '\n' text)) ts [] := by
    rw [unlines_splitOn]
    simpa using (h.line []).join hend
  obtain ⟨hkept, halike⟩ := pieces_without_comments (.inl rfl) sep_notMem_splitOn hwhole hts happart
  rw [List.nil_append, List.nil_append, unlines_splitOn] at halike
  rw [List.nil_append] at hkept
  refine alike_trans (pieces_line h hts) (alike_trans halike ?_)
  rw [dropComments]
  generalize (Text.splitOn '\n' text).filter (!isComment ·) = kept at hkept
  by_cases hnil : kept = []
  · subst hnil
    exact alike_pieces hkept hts
  · rw [unlines, ← intercalate_append_sep '\n' hnil] at hkept ⊢
    have hdropped : Scans (['\n'].intercalate kept) ts [] := hkept.of_blank rfl
    exact (pieces_line hdropped hts).flip.imp fun _ _ => Alike.symm

/-! ## Statements and source texts -/

/-- What two alike texts leave in a script. -/
theorem holdsToken_of_alike {a b : List Char} (h : Alike a b) (hkept : Text.trim b ≠ [] → holdsToken (Text.trim b) = true) :
    holdsToken a = !(Text.trim b).isEmpty := by
  obtain ⟨ts, ha, hb⟩ := h.tokens
  have htrim := hb.trim
  by_cases hempty : Text.trim b = []
  · rw [hempty] at htrim ⊢
    rw [holdsToken_eq ha, htrim.tokens_of_nil]
    rfl
  · have hholds := hkept hempty
    rw [holdsToken_eq htrim, ← holdsToken_eq ha] at hholds
    simp [hholds, hempty]

theorem forall₂_statements {as bs : List (List Char)} (h : List.Forall₂ Alike as bs)
    (hkept : ∀ b ∈ bs, Text.trim b ≠ [] → holdsToken (Text.trim b) = true) :
    List.Forall₂ Alike (as.filter holdsToken) ((bs.map Text.trim).filter (!·.isEmpty)) := by
  induction h with
  | nil => exact .nil
  | @cons a b as bs hab _ ih =>
    have hrest := ih fun b hb => hkept b (List.mem_cons_of_mem _ hb)
    have hholds := holdsToken_of_alike hab (hkept b List.mem_cons_self)
    obtain ⟨ts, -, hb⟩ := hab.tokens
    rw [List.map_cons, List.filter_cons, List.filter_cons, hholds]
    split
    · exact .cons (hab.trans (.of_trim_eq hb hb.trim (Text.trim_trim b).symm)) hrest
    · exact hrest

section

variable {text : List Char} {xs : List Lexeme}

/-- Every statement holds a token. -/
theorem holdsToken_of_statements (hkept : ∀ s ∈ statements text, holdsToken s.toList = true) {piece : List Char}
    (hpiece : piece ∈ pieces [';'] .plain 0 [] (dropComments text)) (hne : Text.trim piece ≠ []) :
    holdsToken (Text.trim piece) = true := by
  have hmem : Text.trim piece ∈ TopLevel.split [';'] (dropComments text) :=
    List.mem_filter.mpr ⟨List.mem_map_of_mem hpiece, by simpa using hne⟩
  have hholds := hkept _ (List.mem_map_of_mem hmem)
  rwa [String.toList_ofList] at hholds

/-- The statements of a script mean one by one what its source texts mean. -/
theorem sources_statements (hlex : Token.lex text = .ok xs) (hnames : ∀ t ∈ xs.map (·.token), PlainName t)
    (happart : CommentsApart [] (Text.splitOn '\n' text)) (hkept : ∀ s ∈ statements text, holdsToken s.toList = true) :
    List.Forall₂ (fun s s' => Alike s.toList s'.toList) (sources text xs) (statements text) := by
  rw [sources, statements, between_eq_pieces hlex hnames, List.forall₂_map_left_iff, List.forall₂_map_right_iff]
  simp only [String.toList_ofList]
  exact forall₂_statements (pieces_dropComments (scans_of_lexFrom hlex) hnames happart) fun _ hb => holdsToken_of_statements hkept hb

/-- Without lines of comment the statements are the source texts without the white space around them. -/
theorem statements_of_no_comment (hlex : Token.lex text = .ok xs) (hnames : ∀ t ∈ xs.map (·.token), PlainName t)
    (hcomments : ∀ line ∈ Text.splitOn '\n' text, isComment line = false)
    (hkept : ∀ s ∈ statements text, holdsToken s.toList = true) : statements text = (sources text xs).map Text.stripped := by
  have hdrop : dropComments text = text := by
    rw [dropComments, List.filter_eq_self.mpr fun line hline => by simp [hcomments line hline], splitOn_eq]
    exact List.intercalate_splitOn '\n'
  have hfilter : (pieces [';'] .plain 0 [] text).filter (fun piece => !(Text.trim piece).isEmpty) =
      (pieces [';'] .plain 0 [] text).filter holdsToken := by
    refine List.filter_congr fun piece hpiece => ?_
    obtain ⟨ts, hts⟩ := exists_scans_of_mem_pieces .semicolon (scans_of_lexFrom hlex) hnames hpiece
    exact (holdsToken_of_alike (.refl hts) (holdsToken_of_statements hkept (hdrop.symm ▸ hpiece))).symm
  have hstripped : Text.stripped ∘ String.ofList = String.ofList ∘ Text.trim := by
    funext cs
    rw [Function.comp_apply, Text.stripped, String.toList_ofList]
    rfl
  rw [statements, TopLevel.split, hdrop, List.filter_map, sources, between_eq_pieces hlex hnames, List.map_map, List.map_map,
    hstripped]
  exact congrArg _ hfilter

/-- A token that is no semicolon stands in one of the runs. -/
theorem exists_run_of_mem {t : Token} {ts : List Token} (ht : t ∈ ts) (hne : t ≠ .symbol .semicolon) (depth : Nat) :
    ∃ run ∈ runs .semicolon depth ts, t ∈ run := by
  induction ts generalizing depth with
  | nil => cases ht
  | cons t' ts ih =>
    rw [runs]
    split
    · rename_i hcut
      obtain ⟨run, hrun, hmem⟩ := ih ((List.mem_cons.mp ht).resolve_left fun h => hne (h.trans hcut.1)) 0
      exact ⟨run, List.mem_cons_of_mem _ hrun, hmem⟩
    · obtain ⟨first, others, hruns⟩ := List.exists_cons_of_ne_nil (runs_ne_nil .semicolon (depthAfter depth [t']) ts)
      rw [hruns, List.modifyHead_cons]
      rcases List.mem_cons.mp ht with rfl | ht
      · exact ⟨_, List.mem_cons_self, List.mem_cons_self⟩
      · obtain ⟨run, hrun, hmem⟩ := ih ht (depthAfter depth [t'])
        rw [hruns] at hrun
        rcases List.mem_cons.mp hrun with rfl | hrun
        · exact ⟨_, List.mem_cons_self, List.mem_cons_of_mem _ hmem⟩
        · exact ⟨run, List.mem_cons_of_mem _ hrun, hmem⟩

/-- A script with more than semicolons in it has a source text. -/
theorem sources_ne_nil (hlex : Token.lex text = .ok xs) (hnames : ∀ t ∈ xs.map (·.token), PlainName t)
    (hsome : ∃ x ∈ xs, x.token ≠ .symbol .semicolon) : sources text xs ≠ [] := by
  obtain ⟨x, hx, hne⟩ := hsome
  obtain ⟨run, hrun, hmem⟩ := exists_run_of_mem (List.mem_map_of_mem hx) hne 0
  obtain ⟨piece, hpiece, hscans⟩ := exists_of_forall₂ (pieces_runs .semicolon (scans_of_lexFrom hlex) hnames 0).flip hrun
  have hholds : holdsToken piece = true := by simp [holdsToken_eq hscans, List.ne_nil_of_mem hmem]
  rw [sources, between_eq_pieces hlex hnames]
  exact List.ne_nil_of_mem (List.mem_map_of_mem (List.mem_filter.mpr ⟨hpiece, hholds⟩))

end

end JsonTables.Script
