/-
  JsonTables.Proofs.Console.Script — a script and its statements one by one.

  A script is carried out without its comment lines, each piece between semicolons without the white space
  around it. Carrying out its source texts one at a time, as they are written, prints the same. Two things set
  the runs apart: a piece in which no token stands but a comment is refused as a statement of the script, and a
  line that looks like a comment goes out of the script wherever it stands.

  Proved:
  - `runEach_eq_run`: where no pages are turned a batch is its statements one by one.
  - `runEach_alike`: statements that mean the same print the same.
  - `runScript_eq_runEach`: a script prints what its source texts print.
-/

import JsonTables.Console.Batch
import JsonTables.Proofs.Hint.Extraction
import JsonTables.Proofs.Script

namespace JsonTables.Console

open Statement Token TopLevel

/-- Statements carried out each in a batch of its own, up to the first that stops. -/
def runEach (settings : BatchSettings) : List String → List Output × Status Batch
  | [] => ([], .finished 0)
  | sql :: rest =>
    match Batch.run settings [sql] with
    | (shown, .finished 0) =>
      let (others, status) := runEach settings rest
      (shown ++ others, status)
    | stopped => stopped

/-- What is printed. -/
def printed (outputs : List Output) : String := String.join (outputs.map Output.toStdout)

theorem printed_append (before after : List Output) : printed (before ++ after) = printed before ++ printed after := by
  rw [printed, List.map_append, String.join_append]
  rfl

/-! ## One statement -/

/-- Without a pager there are no pages. -/
theorem present_pages (pageSize : Int) (r : QueryResult) : (present false pageSize r).2 = [] := by
  rw [present]
  split
  · rfl
  · rfl
  · simp

/-- Without a pager the next statement follows on a result. -/
theorem run_result {settings : BatchSettings} (hpager : settings.pager = false) {sql : String} {journal : Journal}
    {r : QueryResult} (h : answer settings.dataset sql = (journal, .result r)) : ∃ before, ∀ rest,
      Batch.run settings (sql :: rest) = (before ++ (Batch.run settings rest).1, (Batch.run settings rest).2) := by
  have hpages := present_pages settings.pageSize r
  rw [← hpager] at hpages
  refine ⟨(if settings.verbose then [Output.line ("tabql> " ++ sql)] else []) ++ journal.map Output.note ++
    (present settings.pager settings.pageSize r).1, fun rest => ?_⟩
  rw [Batch.run]
  simp only [h]
  cases hpresent : present settings.pager settings.pageSize r with
  | mk shown pages =>
    rw [hpresent] at hpages
    obtain rfl : pages = [] := hpages
    rfl

/-- What a batch does with a statement does not depend on those behind it. -/
theorem run_cons {settings : BatchSettings} (hpager : settings.pager = false) (sql : String) (rest : List String) :
    Batch.run settings (sql :: rest) =
      match Batch.run settings [sql] with
      | (shown, .finished 0) =>
        let (others, status) := Batch.run settings rest
        (shown ++ others, status)
      | stopped => stopped := by
  cases hanswer : answer settings.dataset sql with
  | mk journal outcome =>
    cases outcome with
    | refused e => simp only [Batch.run, hanswer]
    | failed fault => simp only [Batch.run, hanswer]
    | overlong => simp only [Batch.run, hanswer]
    | result r =>
      obtain ⟨before, hbefore⟩ := run_result hpager hanswer
      rw [hbefore, hbefore, Batch.run, List.append_nil]
      rfl

theorem runEach_eq_run {settings : BatchSettings} (hpager : settings.pager = false) (statements : List String) :
    runEach settings statements = Batch.run settings statements := by
  induction statements with
  | nil => rfl
  | cons sql rest ih =>
    rw [runEach, ih]
    exact (run_cons hpager sql rest).symm

/-! ## Statements that mean the same -/

section

variable {a b : String}

/-- White space around a statement does not count. -/
theorem answer_stripped (dataset : Dataset) (sql : String) : answer dataset (Text.stripped sql) = answer dataset sql := by
  have hbody : body (Text.stripped sql).toList = body sql.toList := by
    rw [Text.stripped, String.toList_ofList, body_trim]
  rw [answer, answer, unknownHints, unknownHints, parse, parse, hbody]

theorem answer_of_execute {dataset : Dataset} {sql : String} {plan : Plan} {r : QueryResult} {journal : Journal}
    (hparse : parse sql = .ok plan) (hresult : plan.execute Registry.builtin dataset = .ok (.ok r, journal))
    (houtput : r.output = none) :
    answer dataset sql = ((unknownHints sql).map Note.unknownHint ++ journal, .result r) := by
  rw [answer, hparse]
  simp only [hresult, houtput]

/-- Of two statements that mean the same both are refused or neither. -/
theorem parse_of_alike (h : Alike a.toList b.toList) {plan : Plan} (ha : parse a = .ok plan) :
    parse b = .ok plan ∧ unknownHints b = unknownHints a := by
  exact parse_iff_means.mpr ((h.same plan _).mp (parse_iff_means.mp ⟨ha, rfl⟩))

theorem extract_ne_overlong {text : List Char} {xs : List Lexeme} (hlex : lex text = .ok xs) (digits : Nat) :
    Hint.extract text ≠ .error (.overlong digits) := by
  intro h
  rw [extract_eq, hlex] at h
  simp only [Except.bind, readList_eq] at h
  repeat' split at h
  all_goals cases h

theorem parseClauses_ne_overlong {text : List Char} {xs : List Lexeme} (hlex : lex text = .ok xs) (digits : Nat) :
    parseClauses text ≠ .error (.overlong digits) := by
  intro h
  simp only [parseClauses, hlex, bind, Except.bind] at h
  split at h
  · cases h
  · split at h
    · cases h
    · cases hrun : run State.start xs with
      | ok plan =>
        rw [hrun] at h
        cases h
      | error x =>
        rw [hrun] at h
        cases x <;> cases h

/-- A statement that the lexer takes is refused for no digits. -/
theorem parse_ne_overlong {sql : String} {ts : List Token} (h : Scans sql.toList ts []) (digits : Nat) :
    parse sql ≠ .error (.overlong digits) := by
  obtain ⟨us, -, -, hbody⟩ := scans_body h
  obtain ⟨xs, -, hlex⟩ := hbody.lexes 0 1
  have hlex : lex (body sql.toList) = .ok xs := hlex.lexFrom_eq
  intro hparse
  by_cases hne : body sql.toList = []
  · simp only [parse, hne] at hparse
    cases hparse
  · rw [parse_eq rfl hne] at hparse
    cases hextract : Hint.extract (body sql.toList) with
    | error m =>
      rw [hextract] at hparse
      cases hparse
      exact extract_ne_overlong hlex digits hextract
    | ok x =>
      obtain ⟨before, behind, hcut⟩ := Hint.exists_cut xs
      have hleft := Hint.lex_left hlex hcut hextract
      rw [hextract] at hparse
      simp only [Except.bind] at hparse
      cases hclauses : parseClauses x.text with
      | ok plan =>
        rw [hclauses] at hparse
        cases hparse
      | error m =>
        rw [hclauses] at hparse
        cases hparse
        exact parseClauses_ne_overlong hleft digits hclauses

/-- What is refused, but not for digits, has its refusal as answer. -/
theorem answer_of_refused {dataset : Dataset} {sql : String} {e : Malformed} {ts : List Token}
    (h : Scans sql.toList ts []) (hparse : parse sql = .error e) :
    answer dataset sql = ((unknownHints sql).map Note.unknownHint, .refused (.malformed e)) := by
  have hne : ∀ digits, e ≠ .overlong digits := by
    rintro digits rfl
    exact parse_ne_overlong h digits hparse
  rw [answer, hparse]
  cases e with
  | overlong digits => exact absurd rfl (hne digits)
  | _ => rfl

/-- Statements that mean the same have one answer, or both are refused for what stands in them. -/
theorem answer_of_alike (h : Alike a.toList b.toList) (dataset : Dataset) :
    answer dataset a = answer dataset b ∨
      ∃ e e' ignored ignored', answer dataset a = (ignored, .refused (.malformed e)) ∧
        answer dataset b = (ignored', .refused (.malformed e')) := by
  cases ha : parse a with
  | ok plan =>
    obtain ⟨hb, hunknown⟩ := parse_of_alike h ha
    exact .inl (by rw [answer, answer, ha, hb, hunknown])
  | error e =>
    cases hb : parse b with
    | ok plan =>
      obtain ⟨ha', -⟩ := parse_of_alike h.symm hb
      rw [ha] at ha'
      cases ha'
    | error e' =>
      obtain ⟨ts, hats, hbts⟩ := h.tokens
      exact .inr ⟨e, e', _, _, answer_of_refused hats ha, answer_of_refused hbts hb⟩

theorem printed_notes (journal : Journal) : printed (journal.map Output.note) = "" := by
  induction journal with
  | nil => rfl
  | cons note journal ih =>
    rw [List.map_cons, printed, List.map_cons, String.join_cons]
    exact ih

/-- A statement that is refused prints nothing, what it is refused for apart. -/
theorem run_refused {settings : BatchSettings} (hverbose : settings.verbose = false) {sql : String} {journal : Journal}
    {e : QueryError} (h : answer settings.dataset sql = (journal, .refused e)) :
    printed (Batch.run settings [sql]).1 = "" ∧ (Batch.run settings [sql]).2 = .finished 1 := by
  simp only [Batch.run, hverbose, h]
  refine ⟨?_, trivial⟩
  rw [printed_append]
  exact congrArg (· ++ "") (printed_notes journal)

theorem run_of_alike {settings : BatchSettings} (hverbose : settings.verbose = false) (h : Alike a.toList b.toList) :
    printed (Batch.run settings [a]).1 = printed (Batch.run settings [b]).1 ∧
      (Batch.run settings [a]).2 = (Batch.run settings [b]).2 := by
  rcases answer_of_alike h settings.dataset with hsame | ⟨e, e', ignored, ignored', ha, hb⟩
  · simp [Batch.run, hverbose, hsame]
  · obtain ⟨hprinted, hstatus⟩ := run_refused hverbose ha
    obtain ⟨hprinted', hstatus'⟩ := run_refused hverbose hb
    rw [hprinted, hprinted', hstatus, hstatus']
    exact ⟨rfl, rfl⟩

end

/-! ## Scripts -/

/-- Statements that mean the same, one by one. -/
theorem runEach_alike {settings : BatchSettings} (hverbose : settings.verbose = false) {as bs : List String}
    (h : List.Forall₂ (fun a b => Alike a.toList b.toList) as bs) :
    printed (runEach settings as).1 = printed (runEach settings bs).1 ∧ (runEach settings as).2 = (runEach settings bs).2 := by
  induction h with
  | nil => exact ⟨rfl, rfl⟩
  | @cons a b as bs hab _ ih =>
    obtain ⟨hprinted, hstatus⟩ := run_of_alike hverbose hab
    obtain ⟨hprinted', hstatus'⟩ := ih
    rw [runEach, runEach]
    cases ha : Batch.run settings [a] with
    | mk shown status =>
      cases hb : Batch.run settings [b] with
      | mk shown' status' =>
        rw [ha, hb] at hprinted hstatus
        obtain rfl : status = status' := hstatus
        match status with
        | .finished 0 =>
          simp only [printed_append]
          exact ⟨by rw [hprinted, hprinted'], hstatus'⟩
        | .finished (code + 1) | .waiting state | .failed fault => exact ⟨hprinted, rfl⟩

/-- Each statement is carried out as it is without the white space around it. -/
theorem runEach_stripped {settings : BatchSettings} (hverbose : settings.verbose = false) (statements : List String) :
    runEach settings (statements.map Text.stripped) = runEach settings statements := by
  induction statements with
  | nil => rfl
  | cons sql rest ih =>
    have hrun : Batch.run settings [Text.stripped sql] = Batch.run settings [sql] := by
      simp [Batch.run, answer_stripped, hverbose]
    rw [List.map_cons, runEach, runEach, hrun, ih]

theorem runScript_of_ne_nil (settings : BatchSettings) {text : String} (h : Script.statements (Text.unifyLineEnds text.toList) ≠ []) :
    runScript settings text = Batch.run settings (Script.statements (Text.unifyLineEnds text.toList)) := by
  rw [runScript]
  split
  · contradiction
  · rfl

/-- A script prints what its source texts print, carried out one by one as they are written, and ends as they do.
Without a line that looks like a comment also what it is refused for is the same. Left open are scripts in which
white space and comments alone stand between two semicolons or behind the last, scripts with a backslash in a
quoted name, and those in which a line that looks like a comment begins inside a token or a list of hints. -/
theorem runScript_eq_runEach {settings : BatchSettings} (hpager : settings.pager = false) (hverbose : settings.verbose = false)
    {text : String} {xs : List Lexeme} (hlex : Token.lex (Text.unifyLineEnds text.toList) = .ok xs)
    (hsome : ∃ x ∈ xs, x.token ≠ .symbol .semicolon) (hnames : ∀ t ∈ xs.map (·.token), PlainName t)
    (happart : Script.CommentsApart [] (Text.splitOn '\n' (Text.unifyLineEnds text.toList)))
    (hkept : ∀ s ∈ Script.statements (Text.unifyLineEnds text.toList), Script.holdsToken s.toList = true) :
    printed (runScript settings text).1 = printed (runEach settings (Script.sources (Text.unifyLineEnds text.toList) xs)).1 ∧
      (runScript settings text).2 = (runEach settings (Script.sources (Text.unifyLineEnds text.toList) xs)).2 ∧
      ((∀ line ∈ Text.splitOn '\n' (Text.unifyLineEnds text.toList), Script.isComment line = false) →
        runScript settings text = runEach settings (Script.sources (Text.unifyLineEnds text.toList) xs)) := by
  have halike := Script.sources_statements hlex hnames happart hkept
  have hne : Script.statements (Text.unifyLineEnds text.toList) ≠ [] := by
    intro hnil
    rw [hnil] at halike
    exact Script.sources_ne_nil hlex hnames hsome (List.forall₂_nil_right_iff.mp halike)
  obtain ⟨hprinted, hstatus⟩ := runEach_alike hverbose halike
  rw [runScript_of_ne_nil settings hne, ← runEach_eq_run hpager]
  refine ⟨hprinted.symm, hstatus.symm, fun hcomments => ?_⟩
  rw [Script.statements_of_no_comment hlex hnames hcomments hkept, runEach_stripped hverbose]

/-- One table with one row. -/
def oneRow : BatchSettings := ⟨⟨[("t", .list [.map [("a", Value.ofInt 1)]])]⟩, false, false, 10⟩

/-- A comment in front of two statements. -/
def commented : String := "-- all\nSELECT a FROM t;SELECT a FROM t"

theorem runScript_eq_runEach_commented :
    oneRow.pager = false ∧ oneRow.verbose = false ∧ ∃ xs,
      Token.lex (Text.unifyLineEnds commented.toList) = .ok xs ∧ (∃ x ∈ xs, x.token ≠ .symbol .semicolon) ∧
      (∀ t ∈ xs.map (·.token), PlainName t) ∧
      Script.CommentsApart [] (Text.splitOn '\n' (Text.unifyLineEnds commented.toList)) ∧
      (∀ s ∈ Script.statements (Text.unifyLineEnds commented.toList), Script.holdsToken s.toList = true) ∧
      printed (runScript oneRow commented).1 =
        printed (runEach oneRow ["-- all\nSELECT a FROM t", "SELECT a FROM t"]).1 ∧
      (runScript oneRow commented).2 = (runEach oneRow ["-- all\nSELECT a FROM t", "SELECT a FROM t"]).2 := by
  have hlex : Token.lex (Text.unifyLineEnds commented.toList) = .ok
      [⟨.keyword .select "SELECT", 7, 6, 2⟩, ⟨.identifier "a", 14, 1, 2⟩, ⟨.keyword .from_ "FROM", 16, 4, 2⟩,
        ⟨.identifier "t", 21, 1, 2⟩, ⟨.symbol .semicolon, 22, 1, 2⟩, ⟨.keyword .select "SELECT", 23, 6, 2⟩,
        ⟨.identifier "a", 30, 1, 2⟩, ⟨.keyword .from_ "FROM", 32, 4, 2⟩, ⟨.identifier "t", 37, 1, 2⟩] := by cbv
  have hsources : Script.sources (Text.unifyLineEnds commented.toList)
      [⟨.keyword .select "SELECT", 7, 6, 2⟩, ⟨.identifier "a", 14, 1, 2⟩, ⟨.keyword .from_ "FROM", 16, 4, 2⟩,
        ⟨.identifier "t", 21, 1, 2⟩, ⟨.symbol .semicolon, 22, 1, 2⟩, ⟨.keyword .select "SELECT", 23, 6, 2⟩,
        ⟨.identifier "a", 30, 1, 2⟩, ⟨.keyword .from_ "FROM", 32, 4, 2⟩, ⟨.identifier "t", 37, 1, 2⟩] =
      ["-- all\nSELECT a FROM t", "SELECT a FROM t"] := by cbv
  have hlines : Text.splitOn '\n' (Text.unifyLineEnds commented.toList) =
      ["-- all".toList, "SELECT a FROM t;SELECT a FROM t".toList] := by cbv
  have hkept : ∀ s ∈ Script.statements (Text.unifyLineEnds commented.toList), Script.holdsToken s.toList = true := by
    have hstatements : Script.statements (Text.unifyLineEnds commented.toList) = ["SELECT a FROM t", "SELECT a FROM t"] := by cbv
    have hholds : Script.holdsToken "SELECT a FROM t".toList = true := by cbv
    rw [hstatements]
    simp only [List.mem_cons, List.not_mem_nil, or_false, or_self, forall_eq, hholds]
  have happart : Script.CommentsApart [] (Text.splitOn '\n' (Text.unifyLineEnds commented.toList)) := by
    rw [hlines]
    rintro before line after hsplit hcomment
    rcases before with _ | ⟨first, _ | ⟨second, before⟩⟩
    · exact ⟨[], .stop, by rintro run ⟨⟩ ⟨_, _, _, hnil, -⟩; simp at hnil⟩
    · obtain ⟨-, hline⟩ := List.cons.inj hsplit
      obtain ⟨rfl, -⟩ := List.cons.inj hline
      cases hcomment
    · simp at hsplit
  refine ⟨rfl, rfl, _, hlex, ⟨_, List.mem_cons_self, by simp⟩, by simp [PlainName], happart, hkept, ?_⟩
  obtain ⟨hprinted, hstatus, -⟩ :=
    @runScript_eq_runEach oneRow rfl rfl _ _ hlex ⟨_, List.mem_cons_self, by simp⟩ (by simp [PlainName]) happart hkept
  rw [hsources] at hprinted hstatus
  exact ⟨hprinted, hstatus⟩

/-- A comment behind the last semicolon is carried out as a statement, and refused. -/
theorem comment_behind_last_statement :
    (∃ xs, Token.lex (Text.unifyLineEnds "SELECT a FROM t; -- done\n".toList) = .ok xs ∧
      (∃ x ∈ xs, x.token ≠ .symbol .semicolon) ∧
      Script.sources (Text.unifyLineEnds "SELECT a FROM t; -- done\n".toList) xs = ["SELECT a FROM t"]) ∧
    (runEach oneRow ["SELECT a FROM t"]).2 = .finished 0 ∧
    (runScript oneRow "SELECT a FROM t; -- done\n").2 = .finished 1 := by
  have hlex : Token.lex (Text.unifyLineEnds "SELECT a FROM t; -- done\n".toList) = .ok
      [⟨.keyword .select "SELECT", 0, 6, 1⟩, ⟨.identifier "a", 7, 1, 1⟩, ⟨.keyword .from_ "FROM", 9, 4, 1⟩,
        ⟨.identifier "t", 14, 1, 1⟩, ⟨.symbol .semicolon, 15, 1, 1⟩] := by cbv
  have hstatements : Script.statements (Text.unifyLineEnds "SELECT a FROM t; -- done\n".toList) =
      ["SELECT a FROM t", "-- done"] := by cbv
  have hbody : Token.lex (body "SELECT a FROM t".toList) = .ok
      [⟨.keyword .select "SELECT", 0, 6, 1⟩, ⟨.identifier "a", 7, 1, 1⟩, ⟨.keyword .from_ "FROM", 9, 4, 1⟩,
        ⟨.identifier "t", 14, 1, 1⟩] := by cbv
  obtain ⟨plan, hparse, r, journal, hresult, houtput⟩ : ∃ plan, parse "SELECT a FROM t" = .ok plan ∧
      ∃ r journal, plan.execute Registry.builtin oneRow.dataset = .ok (.ok r, journal) ∧ r.output = none :=
    ⟨_, (parse_eq_ok hbody (by decide)).mpr (sentence_selecting (.expr (.column (.single "a")))), _, _, rfl, rfl⟩
  obtain ⟨before, hbefore⟩ := run_result rfl (answer_of_execute hparse hresult houtput)
  obtain ⟨notes', e, hanswer'⟩ : ∃ notes e, answer oneRow.dataset "-- done" = (notes, .refused (.malformed e)) := by
    have hnothing : Token.lex (body "-- done".toList) = .ok [] := by cbv
    have hcomment : Scans "-- done".toList [] [] := scans_comment (by decide) (by simp [EndsLine])
    cases hdone : parse "-- done" with
    | error e => exact ⟨_, e, answer_of_refused hcomment hdone⟩
    | ok plan =>
      obtain ⟨w, is, from_, rest, htokens, -⟩ := sentence_shape ((parse_eq_ok hnothing (by simp)).mp hdone)
      cases htokens
  refine ⟨⟨_, hlex, ⟨_, List.mem_cons_self, by simp⟩, by cbv⟩, ?_, ?_⟩
  · rw [runEach_eq_run rfl, hbefore]
    rfl
  · rw [runScript_of_ne_nil _ (by rw [hstatements]; simp), hstatements, hbefore]
    exact (run_refused rfl hanswer').2

end JsonTables.Console
