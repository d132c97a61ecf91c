/-
  JsonTables.Table.Pager — rows a page at a time. Behind every page stands a prompt; an answer `:q`
  or the end of input leaves the rest unshown, and any other answer goes on.
-/

import JsonTables.Table.Grid
import JsonTables.Text.Blank
import JsonTables.Text.Case

namespace JsonTables

/-- A page and the prompt behind it. -/
structure Page where
  table : String
  prompt : String
  deriving DecidableEq, Repr

/-- What the pager does: it writes a table, or it asks for an answer. -/
inductive Page.Event where
  | output (table : String)
  | prompt (text : String)
  deriving DecidableEq, Repr

/-- The table of a page, and then its prompt. -/
def Page.events (page : Page) : List Page.Event := [.output page.table, .prompt page.prompt]

namespace Pager

/-- How many rows a page has when nothing is said. -/
def defaultSize : Int := 5

/-- The number of pages that so many rows take. -/
def pageCount (size rows : Nat) : Nat := (rows + size - 1) / size

/-- The rows of the page with a number, counted from zero. -/
def chunk {α : Type} (size page : Nat) (rows : List α) : List α := (rows.drop (page * size)).take size

/-- The prompt behind the page with a number, counted from zero. -/
def prompt (page total : Nat) : String :=
  if page + 1 < total then s!"-- page {page + 1}/{total}, Enter for more, :q to quit -- "
  else "[END OF DATA] Press Enter to continue "

/-- The rows of every page; a size below one counts as one. -/
def chunks {α : Type} (size : Int) (rows : List α) : List (List α) :=
  let size := (max size 1).toNat
  (List.range (pageCount size rows.length)).map fun page => chunk size page rows

/-- The pages of some rows. -/
def pages (columns : List String) (size : Int) (rows : List Row) : List Page :=
  let parts := chunks size rows
  (parts.zip (List.range parts.length)).map fun (part, page) =>
    ⟨Grid.render columns part, prompt page parts.length⟩

/-- Whether an answer leaves the pager. -/
def quits (answer : String) : Bool := Text.lower (Text.stripped answer) == ":q"

/-- The pages that are shown if these are the answers until the end of input. -/
def shown : List Page → List String → List Page
  | [], _ => []
  | page :: _, [] => [page]
  | page :: rest, answer :: answers => page :: if quits answer then [] else shown rest answers

/-- Pages are shown one after another until an answer leaves the pager or the input ends; so many have been
shown before. What is done comes back, and how many pages have been shown in the end. -/
def turn (before : Nat) : List Page → List String → List Page.Event × Nat
  | [], _ => ([], before)
  | page :: _, [] => (page.events, before + 1)
  | page :: rest, answer :: answers =>
    if quits answer then (page.events, before + 1)
    else
      let (events, shown) := turn (before + 1) rest answers
      (page.events ++ events, shown)

/-- Some rows shown page by page, where these are the answers until the end of input. Without rows there is
one table, no page and no prompt. -/
def run (columns : List String) (size : Int) (rows : List Row) (answers : List String) : List Page.Event × Nat :=
  if rows.isEmpty then ([.output (Grid.render columns rows)], 0)
  else turn 0 (pages columns size rows) answers

end Pager

end JsonTables
