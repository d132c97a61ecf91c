/-
  JsonTables.Proofs.Console.Session — a session line by line, and the dataset that its statements run on.

  Three readers share the input of a session: the prompt, a statement that goes on over several lines, and the pager.
  What a line does is told as an event, which names the dataset where one matters. The session's answer is a function
  of the event, so a statement is carried out on the dataset that its event names and on no other: what it shows is
  what parsing it and executing its plan on that dataset come to. One step changes the dataset only if it loads one. By
  induction over the lines, the dataset of every step is the one of the latest load before it.

  Proved:
  - `step_eq`: a step is the answer to the event of its line.
  - `carriesOut_answered`: what a statement shows.
  - `respond_cases`: the session after a step.
  - `history_consumes`: the lines are read one after another, each once, up to the end of the session.
  - `dataset_of_history`: over a whole session the dataset is the one loaded last.
  - `gathers_of_history`: a statement is put together from the lines since the prompt.
  - `session_runs_on_latest`: which dataset and which text a statement has, from the start of a session on.
-/

import JsonTables.Console.Shell
import JsonTables.Proofs.Dataset.Load

namespace JsonTables.Console

/-! ## What a line does -/

/-- What a line of input does in a session. -/
inductive Event where
  /-- The session is left, with this output. -/
  | leave (shown : List Output)
  /-- Nothing at all. -/
  | idle
  | help
  | clear
  | tables (dataset : Option Dataset)
  /-- A file is to be loaded; what was found in it. -/
  | load (path : String) (found : Except DatasetError Dataset)
  /-- A statement is not complete; its text so far. -/
  | begun (text : String)
  /-- A statement is complete, and is carried out on the dataset if there is one. -/
  | statement (sql : String) (dataset : Option Dataset)
  /-- An answer to the pager; the pages that are left. -/
  | answer (rest : List Page)

namespace Event

/-- Whether the event is one that only a command brings about. -/
def isCommand : Event → Bool
  | leave _ | idle | help | clear | tables _ | load .. => true
  | begun _ | statement .. | answer _ => false

/-- The dataset that the event loads. -/
def loaded? : Event → Option Dataset
  | load _ (.ok d) => some d
  | _ => none

end Event

namespace Shell

/-- What a command does. -/
def commandEvent (s : Shell) (files : Files) : Command → Event
  | .exit => .leave []
  | .help => .help
  | .clear => .clear
  | .tables => .tables s.dataset
  | .load path => .load path (Dataset.ofFile (files path))

/-- What the text of a statement does, complete or not. -/
def textEvent (s : Shell) (text : String) : Event :=
  if Script.continues text then .begun text else .statement text s.dataset

/-- What a line does where commands are read. -/
def promptEvent (s : Shell) (files : Files) (line : String) : Event :=
  if line.isEmpty then .idle
  else match command? line with
    | some c => s.commandEvent files c
    | none => s.textEvent line

/-- What a line of input does, by what the session reads it as. -/
def event (s : Shell) (files : Files) (input : Option String) : Event :=
  match s.reading, input with
  | .command, none => .leave [.line ""]
  | .command, some line => s.promptEvent files (Text.stripped line)
  | .continuation text, input =>
    let line := Text.stripped (input.getD "")
    if line.isEmpty then .statement text s.dataset else s.textEvent (text ++ "\n" ++ line)
  | .paging rest, input => .answer (afterAnswer rest input)

/-! ## How a session answers -/

/-- The answer to a statement that was carried out. -/
def answered (s : Shell) : Journal × Answer → List Output × Status Shell
  | (journal, .refused e) => s.ready (journal.map Output.note ++ [.line ("Error: " ++ e.message), .line ""])
  | (journal, .failed fault) => (journal.map Output.note, .failed fault)
  | (journal, .overlong) => (journal.map Output.note, .failed .digits)
  | (journal, .result r) =>
    match present true s.pageSize r with
    | (shown, page :: pages) =>
      (journal.map Output.note ++ shown ++ showPage page, .waiting { s with reading := .paging pages })
    | (shown, []) => s.ready (journal.map Output.note ++ shown ++ [.line ""])

/-- The answer of a session to an event. Nothing is carried out but a statement that comes with a dataset. -/
def respond (s : Shell) : Event → List Output × Status Shell
  | .leave shown => (shown, .finished 0)
  | .idle => s.ready []
  | .help => s.ready [help]
  | .clear => s.ready [.text "\x1b[2J\x1b[H"]
  | .tables dataset => s.ready ({ s with dataset }.listTables ++ [.line ""])
  | .load path (.ok d) =>
    { s with dataset := some d }.ready
      [.note (.loaded path d.root.length), .line s!"Loaded dataset: {path}", .line ""]
  | .load _ (.error .overlong) => ([], .failed .digits)
  | .load path (.error e) => s.ready [.line ("Error: " ++ e.message path), .line ""]
  | .begun text => ([continuationPrompt], .waiting { s with reading := .continuation text })
  | .statement _ none => s.ready [.line (noDataset ++ "\n")]
  | .statement sql (some d) => s.answered (Console.answer d sql)
  | .answer (page :: rest) => (showPage page, .waiting { s with reading := .paging rest })
  | .answer [] => s.ready [.line ""]

variable {s : Shell} {files : Files} {input : Option String}

/-- The notes on the hints of a statement that are none. -/
def ignored (sql : String) : Journal := (Statement.unknownHints sql).map Note.unknownHint

/-- What a session makes of a statement on a dataset, by what parsing it and executing its plan there come to. An
integer of too many digits ends the session wherever it stands. -/
inductive CarriesOut (s : Shell) (sql : String) (d : Dataset) : List Output × Status Shell → Prop
  | malformed {e : Malformed} : Statement.parse sql = .error e → (∀ digits, e ≠ .overlong digits) →
      CarriesOut s sql d (s.ready ((ignored sql).map Output.note ++ [.line ("Error: " ++ e.message), .line ""]))
  | unread {digits : Nat} : Statement.parse sql = .error (.overlong digits) →
      CarriesOut s sql d ((ignored sql).map Output.note, .failed .digits)
  | refused {plan : Plan} {e : QueryError} : Statement.parse sql = .ok plan →
      plan.execute Registry.builtin d = .error e →
      CarriesOut s sql d (s.ready ((ignored sql).map Output.note ++ [.line ("Error: " ++ e.message), .line ""]))
  | failed {plan : Plan} {fault : Fault} {journal : Journal} : Statement.parse sql = .ok plan →
      plan.execute Registry.builtin d = .ok (.error fault, journal) →
      CarriesOut s sql d ((ignored sql ++ journal).map Output.note, .failed fault)
  /-- The result has a number that its JSON text would have no room for. -/
  | unwritten {plan : Plan} {r : QueryResult} {fault : Fault} {journal : Journal} : Statement.parse sql = .ok plan →
      plan.execute Registry.builtin d = .ok (.ok r, journal) → r.output = some (.error fault) →
      CarriesOut s sql d ((ignored sql ++ journal.dropLast).map Output.note, .failed .digits)
  | shown {plan : Plan} {r : QueryResult} {journal : Journal} {lines : List Output} : Statement.parse sql = .ok plan →
      plan.execute Registry.builtin d = .ok (.ok r, journal) → (∀ fault, r.output ≠ some (.error fault)) →
      present true s.pageSize r = (lines, []) →
      CarriesOut s sql d (s.ready ((ignored sql ++ journal).map Output.note ++ lines ++ [.line ""]))
  | paged {plan : Plan} {r : QueryResult} {journal : Journal} {lines : List Output} {page : Page} {pages : List Page} :
      Statement.parse sql = .ok plan → plan.execute Registry.builtin d = .ok (.ok r, journal) →
      (∀ fault, r.output ≠ some (.error fault)) → present true s.pageSize r = (lines, page :: pages) →
      CarriesOut s sql d ((ignored sql ++ journal).map Output.note ++ lines ++ showPage page,
        .waiting { s with reading := .paging pages })

theorem carriesOut_answered (s : Shell) (sql : String) (d : Dataset) :
    CarriesOut s sql d (s.answered (Console.answer d sql)) := by
  unfold Console.answer
  cases hparse : Statement.parse sql with
  | error e =>
    cases e with
    | overlong digits => exact .unread hparse
    | _ => exact .malformed hparse nofun
  | ok plan =>
    dsimp only
    rcases hrun : plan.execute Registry.builtin d with e | ⟨fault | r, journal⟩
    · exact .refused hparse hrun
    · cases fault <;> exact .failed hparse hrun
    · have hshows (hgood : ∀ fault, r.output ≠ some (.error fault)) :
          CarriesOut s sql d (s.answered (ignored sql ++ journal, .result r)) := by
        unfold answered
        dsimp only
        rcases hpresent : present true s.pageSize r with ⟨lines, _ | ⟨page, pages⟩⟩
        · exact .shown hparse hrun hgood hpresent
        · exact .paged hparse hrun hgood hpresent
      dsimp only
      cases houtput : r.output with
      | none => exact hshows (by simp [houtput])
      | some output =>
        cases output with
        | ok json => exact hshows (by simp [houtput])
        | error fault => exact .unwritten hparse hrun houtput

theorem query_eq (s : Shell) (sql : String) : s.query sql = s.respond (.statement sql s.dataset) := by
  obtain ⟨dataset, pageSize, reading⟩ := s
  cases dataset with
  | none => rfl
  | some d =>
    unfold query respond answered
    dsimp only
    rcases Console.answer d sql with ⟨journal, r | e | fault | _⟩
    · rcases present true pageSize r with ⟨shown, _ | ⟨page, pages⟩⟩ <;> rfl
    · rfl
    · rfl
    · rfl

theorem execute_eq (s : Shell) (files : Files) (c : Command) :
    s.execute files c = s.respond (s.commandEvent files c) := by
  cases c with
  | load path =>
    dsimp only [execute, load, commandEvent]
    rcases Dataset.ofFile (files path) with e | d
    · cases e <;> rfl
    · rfl
  | _ => rfl

theorem text_eq (s : Shell) (text : String) :
    (if Script.continues text then ([continuationPrompt], .waiting { s with reading := .continuation text })
      else s.query text) = s.respond (s.textEvent text) := by
  unfold textEvent
  split
  · rfl
  · exact query_eq s text

theorem stepCommand_eq (s : Shell) (files : Files) (line : String) :
    s.stepCommand files line = s.respond (s.promptEvent files (Text.stripped line)) := by
  unfold stepCommand promptEvent
  dsimp only
  generalize Text.stripped line = text
  by_cases hempty : text.isEmpty = true
  · rw [if_pos hempty, if_pos hempty]
    rfl
  · rw [if_neg hempty, if_neg hempty]
    generalize command? text = command
    cases command with
    | some c => exact execute_eq s files c
    | none => exact text_eq s text

/-- A step is the answer to the event of its line. -/
theorem step_eq (s : Shell) (files : Files) (input : Option String) :
    s.step files input = s.respond (s.event files input) := by
  unfold step event
  cases s.reading with
  | command =>
    cases input with
    | none => rfl
    | some line => exact stepCommand_eq s files line
  | continuation text =>
    show s.stepContinuation text input = _
    unfold stepContinuation
    dsimp only
    by_cases hempty : (Text.stripped (input.getD "")).isEmpty = true
    · rw [if_pos hempty, if_pos hempty]
      exact query_eq s text
    · rw [if_neg hempty, if_neg hempty]
      exact text_eq s _
  | paging rest =>
    dsimp only
    cases afterAnswer rest input <;> rfl

/-! ## How lines are read -/

theorem textEvent_cases (s : Shell) (text : String) :
    s.textEvent text = .begun text ∨ s.textEvent text = .statement text s.dataset := by
  unfold textEvent
  split
  · exact .inl rfl
  · exact .inr rfl

theorem isCommand_textEvent (s : Shell) (text : String) : (s.textEvent text).isCommand = false := by
  rcases s.textEvent_cases text with h | h <;> rw [h] <;> rfl

/-- The prompt takes a line as a command or as the beginning of a statement, a statement takes it as more of its text
or as its end, and the pager as an answer. -/
theorem event_cases (s : Shell) (files : Files) (input : Option String) :
    (s.reading = .command ∧ ((s.event files input).isCommand = true ∨
      s.event files input = s.textEvent (Text.stripped (input.getD "")))) ∨
    (∃ text, s.reading = .continuation text ∧ (s.event files input = .statement text s.dataset ∨
      s.event files input = s.textEvent (text ++ "\n" ++ Text.stripped (input.getD "")))) ∨
    ∃ rest, s.reading = .paging rest ∧ s.event files input = .answer (afterAnswer rest input) := by
  unfold event
  cases s.reading with
  | command =>
    refine .inl ⟨rfl, ?_⟩
    cases input with
    | none => exact .inl rfl
    | some line =>
      dsimp only [promptEvent, Option.getD_some]
      split
      · exact .inl rfl
      · split
        · rename_i c _
          cases c <;> exact .inl rfl
        · exact .inr rfl
  | continuation text =>
    refine .inr (.inl ⟨text, rfl, ?_⟩)
    dsimp only
    split
    · exact .inl rfl
    · exact .inr rfl
  | paging rest => exact .inr (.inr ⟨rest, rfl, rfl⟩)

/-- A line acts as a command only where commands are read. -/
theorem reading_of_isCommand (h : (s.event files input).isCommand = true) : s.reading = .command := by
  rcases s.event_cases files input with ⟨hreading, -⟩ | ⟨text, -, he | he⟩ | ⟨rest, -, he⟩
  · exact hreading
  · rw [he] at h
    cases h
  · rw [he, isCommand_textEvent] at h
    cases h
  · rw [he] at h
    cases h

/-- Where a file is loaded the line is a command that says so. -/
theorem command_of_load {path : String} {found : Except DatasetError Dataset}
    (h : s.event files input = .load path found) :
    s.reading = .command ∧ ∃ line, input = some line ∧ command? (Text.stripped line) = some (.load path) ∧
      found = Dataset.ofFile (files path) := by
  have hreading : s.reading = .command := reading_of_isCommand (by rw [h]; rfl)
  unfold event at h
  rw [hreading] at h
  cases input with
  | none => cases h
  | some line =>
    refine ⟨hreading, line, rfl, ?_⟩
    dsimp only [promptEvent] at h
    split at h
    · cases h
    · split at h
      · rename_i c hc
        cases c with
        | load path => cases h; exact ⟨hc, rfl⟩
        | _ => cases h
      · have htext := s.isCommand_textEvent (Text.stripped line)
        rw [h] at htext
        cases htext

/-- A statement comes with the dataset of the session. It is one line, or what there was of it, ended by an empty line
or with one more line behind. -/
theorem statement_cases {sql : String} {dataset : Option Dataset} (h : s.event files input = .statement sql dataset) :
    dataset = s.dataset ∧ (s.reading = .command ∧ sql = Text.stripped (input.getD "") ∨
      ∃ text, s.reading = .continuation text ∧ (sql = text ∨ sql = text ++ "\n" ++ Text.stripped (input.getD ""))) := by
  have htext {text : String} (he : s.event files input = s.textEvent text) : dataset = s.dataset ∧ sql = text := by
    rw [h] at he
    rcases s.textEvent_cases text with ht | ht <;> rw [ht] at he <;> cases he
    exact ⟨rfl, rfl⟩
  rcases s.event_cases files input with ⟨hreading, he | he⟩ | ⟨text, hreading, he | he⟩ | ⟨rest, -, he⟩
  · rw [h] at he
    cases he
  · exact ⟨(htext he).1, .inl ⟨hreading, (htext he).2⟩⟩
  · cases h.symm.trans he
    exact ⟨rfl, .inr ⟨sql, hreading, .inl rfl⟩⟩
  · exact ⟨(htext he).1, .inr ⟨text, hreading, .inr (htext he).2⟩⟩
  · cases h.symm.trans he

/-- A statement that is not complete is what there was of it, with the line behind. -/
theorem text_of_begun {text : String} (h : s.event files input = .begun text) :
    s.reading = .command ∧ text = Text.stripped (input.getD "") ∨
      ∃ t, s.reading = .continuation t ∧ text = t ++ "\n" ++ Text.stripped (input.getD "") := by
  have htext {t : String} (he : s.event files input = s.textEvent t) : text = t := by
    rw [h] at he
    rcases s.textEvent_cases t with ht | ht <;> rw [ht] at he <;> cases he
    rfl
  rcases s.event_cases files input with ⟨hreading, he | he⟩ | ⟨t, hreading, he | he⟩ | ⟨rest, -, he⟩
  · rw [h] at he
    cases he
  · exact .inl ⟨hreading, htext he⟩
  · cases h.symm.trans he
  · exact .inr ⟨t, hreading, htext he⟩
  · cases h.symm.trans he

/-! ## The session after a step -/

theorem answered_cases {outcome : Journal × Answer} {s' : Shell} (h : (s.answered outcome).2 = .waiting s') :
    s' = { s with reading := .command } ∨ ∃ pages, s' = { s with reading := .paging pages } := by
  rcases outcome with ⟨journal, r | e | fault | _⟩
  · dsimp only [answered] at h
    split at h
    · cases h
      exact .inr ⟨_, rfl⟩
    · cases h
      exact .inl rfl
  · cases h
    exact .inl rfl
  · cases h
  · cases h

/-- After a step the dataset is the one that the step loaded, or the one there was. The next line is a command, an
answer to the pager, or more of the statement that the step began. -/
theorem respond_cases {e : Event} {s' : Shell} (h : (s.respond e).2 = .waiting s') :
    s'.dataset = e.loaded?.or s.dataset ∧ (s'.reading = .command ∨ (∃ pages, s'.reading = .paging pages) ∨
      ∃ text, e = .begun text ∧ s'.reading = .continuation text) := by
  cases e with
  | leave shown => cases h
  | begun text =>
    cases h
    exact ⟨rfl, .inr (.inr ⟨text, rfl, rfl⟩)⟩
  | load path found =>
    rcases found with e | d
    · cases e with
      | overlong => cases h
      | _ =>
        cases h
        exact ⟨rfl, .inl rfl⟩
    · cases h
      exact ⟨rfl, .inl rfl⟩
  | statement sql dataset =>
    cases dataset with
    | none =>
      cases h
      exact ⟨rfl, .inl rfl⟩
    | some d =>
      rcases answered_cases h with rfl | ⟨pages, rfl⟩
      · exact ⟨rfl, .inl rfl⟩
      · exact ⟨rfl, .inr (.inl ⟨pages, rfl⟩)⟩
  | answer rest =>
    cases rest with
    | nil =>
      cases h
      exact ⟨rfl, .inl rfl⟩
    | cons page rest =>
      cases h
      exact ⟨rfl, .inr (.inl ⟨rest, rfl⟩)⟩
  | _ =>
    cases h
    exact ⟨rfl, .inl rfl⟩

/-- What goes on with a statement comes behind what began it. -/
theorem begun_of_respond {e : Event} {s' : Shell} {text : String} (h : (s.respond e).2 = .waiting s')
    (htext : s'.reading = .continuation text) : e = .begun text := by
  rcases (respond_cases h).2 with hreading | ⟨pages, hreading⟩ | ⟨t, he, hreading⟩
  · cases hreading.symm.trans htext
  · cases hreading.symm.trans htext
  · cases hreading.symm.trans htext
    exact he

end Shell

/-! ## Sessions -/

/-- A line of input, none at its end, with the files as they are when it is read. -/
abbrev Input : Type := Files × Option String

/-- A line that a session reads, with the session in front of it. -/
structure Moment where
  shell : Shell
  input : Input

namespace Moment

/-- What the line does. -/
def event (m : Moment) : Event := m.shell.event m.input.1 m.input.2

/-- What the session makes of the line. -/
def result (m : Moment) : List Output × Status Shell := m.shell.step m.input.1 m.input.2

/-- The text of the line, none at the end of input. -/
def line (m : Moment) : String := Text.stripped (m.input.2.getD "")

theorem result_eq (m : Moment) : m.result = m.shell.respond m.event := Shell.step_eq m.shell m.input.1 m.input.2

/-- The session is over. -/
def IsLast (m : Moment) : Prop := ∀ s, m.result.2 ≠ .waiting s

end Moment

/-- The dataset that was loaded last, or else the one at the beginning. -/
def latest (initial : Option Dataset) (moments : List Moment) : Option Dataset :=
  (moments.filterMap (·.event.loaded?)).getLast?.or initial

theorem latest_concat (initial : Option Dataset) (moments : List Moment) (m : Moment) :
    latest initial (moments ++ [m]) = m.event.loaded?.or (latest initial moments) := by
  unfold latest
  rw [List.filterMap_append, List.filterMap_cons]
  cases m.event.loaded? <;> simp

/-- What holds of a line that a session reads while this is the dataset that was loaded last. -/
structure Moment.RunsOn (current : Option Dataset) (m : Moment) : Prop where
  /-- The session answers what the line does, and nothing else. -/
  answered : m.result = m.shell.respond m.event
  /-- What a statement shows is what parsing it and executing its plan on the dataset come to. -/
  carriedOut (sql : String) (d : Dataset) : m.event = .statement sql (some d) → m.shell.CarriesOut sql d m.result
  /-- A statement is carried out on the dataset, and without one it is not carried out. It is the line, or what there
  was of it, ended by an empty line or with the line behind. -/
  statement (sql : String) (dataset : Option Dataset) : m.event = .statement sql dataset →
    dataset = current ∧ (m.shell.reading = .command ∧ sql = m.line ∨
      ∃ text, m.shell.reading = .continuation text ∧ (sql = text ∨ sql = text ++ "\n" ++ m.line))
  /-- More of a statement and an answer to the pager are no commands. -/
  command : m.event.isCommand = true → m.shell.reading = .command
  /-- Only a command loads a file. -/
  load (path : String) (found : Except DatasetError Dataset) : m.event = .load path found →
    m.shell.reading = .command ∧ ∃ line, m.input.2 = some line ∧
      Shell.command? (Text.stripped line) = some (.load path) ∧ found = Dataset.ofFile (m.input.1 path)
  /-- What loads no dataset leaves the one there is: a load that fails, a statement that is refused, and every other
  command among them. -/
  kept (next : Shell) : m.result.2 = .waiting next → next.dataset = m.event.loaded?.or current

/-- What there is of a statement that goes on with the line: the line that began it and all lines since then, once each
and in their order. -/
def Moment.Gathers (before : List Moment) (m : Moment) : Prop :=
  ∀ text, m.shell.reading = .continuation text → ∃ earlier first more, before = earlier ++ first :: more ∧
    first.shell.reading = .command ∧ (∀ x ∈ more, ∃ t, x.shell.reading = .continuation t) ∧
      text = more.foldl (fun text x => text ++ "\n" ++ x.line) first.line

namespace Shell

/-- The lines that a session reads of its input, up to its end. -/
def history (s : Shell) : List Input → List Moment
  | [] => []
  | input :: rest => ⟨s, input⟩ :: match (s.step input.1 input.2).2 with
    | .waiting s => s.history rest
    | _ => []

theorem history_waiting {s s' : Shell} {input : Input} (h : (s.step input.1 input.2).2 = .waiting s')
    (rest : List Input) : s.history (input :: rest) = ⟨s, input⟩ :: s'.history rest := by
  rw [history, h]

theorem history_last {s : Shell} {input : Input} (h : (⟨s, input⟩ : Moment).IsLast) (rest : List Input) :
    s.history (input :: rest) = [⟨s, input⟩] := by
  rw [history]
  split
  · rename_i s' hs'
    exact absurd hs' (h s')
  · rfl

/-- The first line is read, and the others by the session that is left, if one is left. -/
theorem history_cons (s : Shell) (input : Input) (rest : List Input) :
    (⟨s, input⟩ : Moment).IsLast ∧ s.history (input :: rest) = [⟨s, input⟩] ∨
      ∃ s', (s.step input.1 input.2).2 = .waiting s' ∧ s.history (input :: rest) = ⟨s, input⟩ :: s'.history rest := by
  cases hstatus : (s.step input.1 input.2).2 with
  | waiting s' => exact .inr ⟨s', rfl, history_waiting hstatus rest⟩
  | finished code =>
    have hlast : (⟨s, input⟩ : Moment).IsLast := fun s' h => nomatch hstatus.symm.trans h
    exact .inl ⟨hlast, history_last hlast rest⟩
  | failed fault =>
    have hlast : (⟨s, input⟩ : Moment).IsLast := fun s' h => nomatch hstatus.symm.trans h
    exact .inl ⟨hlast, history_last hlast rest⟩

/-- The session comes to its end within the input. -/
def EndsWithin (s : Shell) (inputs : List Input) : Prop := ∃ m ∈ (s.history inputs).getLast?, m.IsLast

theorem endsWithin_of_last {s : Shell} {input : Input} (h : (⟨s, input⟩ : Moment).IsLast) (rest : List Input) :
    s.EndsWithin (input :: rest) :=
  ⟨_, by rw [history_last h]; rfl, h⟩

theorem EndsWithin.of_waiting {s s' : Shell} {input : Input} {rest : List Input} (hrest : s'.EndsWithin rest)
    (h : (s.step input.1 input.2).2 = .waiting s') : s.EndsWithin (input :: rest) := by
  obtain ⟨m, hm, hlast⟩ := hrest
  refine ⟨m, ?_, hlast⟩
  rw [history_waiting h, List.getLast?_cons, hm]
  rfl

theorem shell_of_first {s : Shell} {inputs : List Input} {m : Moment} {after : List Moment}
    (h : s.history inputs = m :: after) : m.shell = s := by
  cases inputs with
  | nil => cases h
  | cons input rest =>
    obtain ⟨rfl, -⟩ := List.cons.inj h
    rfl

/-- A moment follows on the one in front of it. -/
theorem result_of_adjacent {inputs : List Input} : ∀ {s : Shell} {before after : List Moment} {p m : Moment},
    s.history inputs = before ++ p :: m :: after → p.result.2 = .waiting m.shell := by
  induction inputs with
  | nil =>
    intro s before after p m h
    cases before <;> cases h
  | cons input rest ih =>
    intro s before after p m h
    rcases history_cons s input rest with ⟨-, hone⟩ | ⟨s', hs', hmore⟩
    · rw [hone] at h
      have hlength := congrArg List.length h
      simp only [List.length_cons, List.length_nil, List.length_append] at hlength
      omega
    · rw [hmore] at h
      cases before with
      | nil =>
        obtain ⟨rfl, hrest⟩ := List.cons.inj h
        rw [shell_of_first hrest]
        exact hs'
      | cons first before => exact ih (List.cons.inj h).2

/-- What the session answers in one moment leads to the next. -/
theorem respond_of_adjacent {s : Shell} {inputs : List Input} {before after : List Moment} {p m : Moment}
    (h : s.history inputs = before ++ p :: m :: after) : (p.shell.respond p.event).2 = .waiting m.shell := by
  have hresult := result_of_adjacent h
  rwa [p.result_eq] at hresult

/-- The lines are read one after another, each once, and all of them unless the session is over. -/
theorem history_consumes (inputs : List Input) : ∀ s : Shell, ∃ unread,
    inputs = (s.history inputs).map Moment.input ++ unread ∧ (unread = [] ∨ s.EndsWithin inputs) := by
  induction inputs with
  | nil => exact fun s => ⟨[], rfl, .inl rfl⟩
  | cons input rest ih =>
    intro s
    rcases history_cons s input rest with ⟨hlast, hone⟩ | ⟨s', hs', hmore⟩
    · exact ⟨rest, by rw [hone]; rfl, .inr (endsWithin_of_last hlast rest)⟩
    · obtain ⟨unread, hread, hend⟩ := ih s'
      refine ⟨unread, ?_, hend.imp_right fun hend => hend.of_waiting hs'⟩
      rw [hmore, List.map_cons, List.cons_append, ← hread]

/-- At every moment the dataset is the one that was loaded last. -/
theorem dataset_of_history {s : Shell} {inputs : List Input} {before after : List Moment} {m : Moment}
    (h : s.history inputs = before ++ m :: after) : m.shell.dataset = latest s.dataset before := by
  induction before using List.reverseRecOn generalizing m after with
  | nil => exact congrArg Shell.dataset (shell_of_first h)
  | append_singleton before p ih =>
    rw [List.append_assoc, List.singleton_append] at h
    rw [(respond_cases (respond_of_adjacent h)).1, ih h, latest_concat]

/-- A session that begins at the prompt has every text of a statement from the lines since the prompt. -/
theorem gathers_of_history {s : Shell} (hs : s.reading = .command) {inputs : List Input} {before after : List Moment}
    {m : Moment} (h : s.history inputs = before ++ m :: after) : m.Gathers before := by
  induction before using List.reverseRecOn generalizing m after with
  | nil =>
    intro text htext
    rw [shell_of_first h] at htext
    cases hs.symm.trans htext
  | append_singleton before p ih =>
    intro text htext
    rw [List.append_assoc, List.singleton_append] at h
    rcases text_of_begun (begun_of_respond (respond_of_adjacent h) htext) with ⟨hreading, rfl⟩ | ⟨t, hreading, rfl⟩
    · exact ⟨before, p, [], rfl, hreading, by simp, rfl⟩
    · obtain ⟨earlier, first, more, rfl, hfirst, hmore, rfl⟩ := ih h t hreading
      refine ⟨earlier, first, more ++ [p], by simp, hfirst, ?_, ?_⟩
      · rw [List.forall_mem_append]
        exact ⟨hmore, List.forall_mem_singleton.mpr ⟨_, hreading⟩⟩
      · rw [List.foldl_append]
        rfl

/-! ## From the start -/

theorem start_cases {files : Files} {path : Option String} {pageSize : Int} {shown : List Output} {s : Shell}
    (h : start files path pageSize = (shown, .waiting s)) :
    s = ⟨path.bind fun path => (Dataset.ofFile (files path)).toOption, pageSize, .command⟩ := by
  unfold start at h
  cases path with
  | none =>
    cases h
    rfl
  | some path =>
    dsimp only at h
    rw [Option.bind_some]
    cases hfile : Dataset.ofFile (files path) with
    | error e =>
      rw [hfile] at h
      cases e <;> cases h
    | ok d =>
      rw [hfile] at h
      cases h
      rfl

/-- However its lines fall to the prompt, to statements and to the pager, a session reads them one after another, each
once, up to its end. Each of them runs on the dataset that was loaded last, or on the one that the session began with,
and each statement is put together from the lines since the prompt. -/
theorem session_runs_on_latest {files : Files} {path : Option String} {pageSize : Int} {shown : List Output} {s : Shell}
    (h : start files path pageSize = (shown, .waiting s)) (inputs : List Input) :
    (∃ unread, inputs = (s.history inputs).map Moment.input ++ unread ∧ (unread = [] ∨ s.EndsWithin inputs)) ∧
    ∀ before m after, s.history inputs = before ++ m :: after → m.Gathers before ∧
      m.RunsOn (latest (path.bind fun path => (Dataset.ofFile (files path)).toOption) before) := by
  obtain rfl := start_cases h
  refine ⟨history_consumes inputs _, fun before m after hmoment => ⟨gathers_of_history rfl hmoment, ?_⟩⟩
  rw [← dataset_of_history hmoment]
  refine ⟨m.result_eq, fun sql d he => ?_, fun _ _ => statement_cases, reading_of_isCommand, fun _ _ => command_of_load,
    fun next hnext => ?_⟩
  · rw [m.result_eq, he]
    exact carriesOut_answered m.shell sql d
  · rw [m.result_eq] at hnext
    exact (respond_cases hnext).1

/-- A dataset with one table and no rows. -/
def noRows : Dataset := ⟨[("data", .list [])]⟩

theorem ofFile_noRows : Dataset.ofFile (.ok "[]") = .ok noRows := by
  have htext : Json.write .line 0 (.list []) = "[]" := by decide +kernel
  have hread := Dataset.ofText_write .line (List.forall_mem_nil Value.HasUniqueKeys) rfl
  rwa [htext] at hread

theorem history_one (s : Shell) (input : Input) : s.history [input] = [⟨s, input⟩] := by
  rcases history_cons s input [] with ⟨-, h⟩ | ⟨_, -, h⟩ <;> exact h

/-- A second `load` that goes on with a statement loads nothing, and an empty line ends the statement. -/
theorem session_runs_on_latest_load :
    let files : Files := fun _ => .ok "[]"
    let inputs : List Input := ["load d.json", "SELECT a FROM data", "load x", ""].map fun line => (files, some line)
    ∃ shown s, start files none 5 = (shown, .waiting s) ∧ ∃ before m, s.history inputs = before ++ [m] ∧
      m.event = .statement "SELECT a FROM data\nload x" (some noRows) ∧ m.RunsOn (some noRows) := by
  intro files inputs
  let first : Shell := ⟨none, 5, .command⟩
  let second : Shell := ⟨some noRows, 5, .command⟩
  let third : Shell := ⟨some noRows, 5, .continuation "SELECT a FROM data"⟩
  let fourth : Shell := ⟨some noRows, 5, .continuation "SELECT a FROM data\nload x"⟩
  have hload : (first.step files (some "load d.json")).2 = .waiting second := by
    rw [step_eq]
    show (first.respond (.load "d.json" (Dataset.ofFile (.ok "[]")))).2 = .waiting second
    rw [ofFile_noRows]
    rfl
  have hbegun : (second.step files (some "SELECT a FROM data")).2 = .waiting third := by rw [step_eq]; rfl
  have hmore : (third.step files (some "load x")).2 = .waiting fourth := by rw [step_eq]; rfl
  have hhistory : first.history inputs = [⟨first, (files, some "load d.json")⟩,
      ⟨second, (files, some "SELECT a FROM data")⟩, ⟨third, (files, some "load x")⟩] ++
        [⟨fourth, (files, some "")⟩] := by
    refine (@history_waiting _ _ (files, some "load d.json") hload _).trans (congrArg _ ?_)
    refine (@history_waiting _ _ (files, some "SELECT a FROM data") hbegun _).trans (congrArg _ ?_)
    exact (@history_waiting _ _ (files, some "load x") hmore _).trans (congrArg _ (history_one ..))
  have hevent : (⟨fourth, (files, some "")⟩ : Moment).event =
      .statement "SELECT a FROM data\nload x" (some noRows) := rfl
  have hstart : ∃ shown, start files none 5 = (shown, .waiting first) := ⟨_, rfl⟩
  obtain ⟨shown, hshown⟩ := hstart
  have hruns := ((session_runs_on_latest hshown inputs).2 _ _ [] hhistory).2
  rw [← (hruns.statement _ _ hevent).1] at hruns
  exact ⟨shown, first, hshown, _, _, hhistory, hevent, hruns⟩

end Shell

end JsonTables.Console
