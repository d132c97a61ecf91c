/-
  JsonTables.Console.Batch — statements carried out one after another up to the first that is refused.
-/

import JsonTables.Console.Output
import JsonTables.TopLevel

namespace JsonTables.Console

/-- How a batch is run. -/
structure BatchSettings where
  dataset : Dataset
  /-- Whether every statement is shown before its result. -/
  verbose : Bool
  /-- Whether there is someone who can turn pages. -/
  pager : Bool
  pageSize : Int

/-- A batch whose current page waits for an answer. -/
structure Batch where
  settings : BatchSettings
  pages : List Page
  statements : List String

namespace Batch

/-- The statements are carried out until one has pages to show. -/
def run (settings : BatchSettings) : List String → List Output × Status Batch
  | [] => ([], .finished 0)
  | sql :: rest =>
    let heading := if settings.verbose then [Output.line ("tabql> " ++ sql)] else []
    let (journal, outcome) := answer settings.dataset sql
    let before := heading ++ journal.map Output.note
    match outcome with
    | .refused e => (before ++ [.error ("Error: " ++ e.message)], .finished 1)
    | .failed fault => (before, .failed fault)
    | .overlong => (before, .failed .digits)
    | .result r =>
      match present settings.pager settings.pageSize r with
      | (shown, page :: pages) => (before ++ shown ++ showPage page, .waiting ⟨settings, pages, rest⟩)
      | (shown, []) =>
        let (others, status) := run settings rest
        (before ++ shown ++ others, status)

/-- An answer turns the page, or leads to the next statement. -/
def step (batch : Batch) (input : Option String) : List Output × Status Batch :=
  match afterAnswer batch.pages input with
  | page :: pages => (showPage page, .waiting { batch with pages })
  | [] => run batch.settings batch.statements

end Batch

/-- The statements of a script file carried out. -/
def runScript (settings : BatchSettings) (text : String) : List Output × Status Batch :=
  match Script.statements (Text.unifyLineEnds text.toList) with
  | [] => ([.error "No queries found in file"], .finished 1)
  | statements => Batch.run settings statements

end JsonTables.Console
