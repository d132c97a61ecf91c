/-
  JsonTables.Console.Shell — the interactive session, one line of input at a time. A line is a command or
  starts a statement, which goes on over further lines up to a semicolon or an empty line; while pages
  are shown, lines are answers to the pager. Statements always run on the dataset loaded last.
-/

import JsonTables.Console.Output
import JsonTables.File
import JsonTables.TopLevel

namespace JsonTables.Console

/-- What the next line is read as. -/
inductive Reading where
  | command
  /-- More of a statement, after the text so far. -/
  | continuation (text : String)
  /-- An answer, after which these pages are left. -/
  | paging (rest : List Page)
  deriving DecidableEq, Repr

structure Shell where
  dataset : Option Dataset
  pageSize : Int
  reading : Reading

namespace Shell

def banner : List Output :=
  [.line "tabql REPL - SQL queries over JSON data",
    .line "Type 'help' for commands, 'exit' to quit.\n"]

def prompt : Output := .text "tabql> "
def continuationPrompt : Output := .text "...> "

def help : Output := .line "
tabql - SQL-like queries over JSON data

QUERIES:
  SELECT [DISTINCT] items FROM table
    [[INNER|LEFT|RIGHT|FULL] JOIN table ON a = b]
    [WHERE condition] [GROUP BY columns] [HAVING condition]
    [ORDER BY expr [ASC|DESC], ...] [LIMIT n] [OFFSET n]
    [WITH (hints)];

  Tables are dotted paths into the dataset, e.g. data.friends or $.friends.
  Window functions: ROW_NUMBER(), RANK(), DENSE_RANK()
    OVER (PARTITION BY ... ORDER BY ...)
  Hints: HEADERCOLUMNUPPERCASE, OUTPUTJSON, PAGINATE

COMMANDS:
  tables                   List the tables in the loaded dataset
  load <path>              Load a JSON dataset file
  help                     Show this help
  exit, quit               Exit the REPL
  clear                    Clear the screen

Queries can span multiple lines. End with semicolon or press Enter on empty line.
"

/-! ## Commands -/

inductive Command where
  | exit
  | help
  | clear
  | tables
  | load (path : String)
  deriving DecidableEq, Repr

/-- Without a character at both ends. -/
def trimChar (c : Char) (cs : List Char) : List Char :=
  Text.dropEndWhile (· = c) (cs.dropWhile (· = c))

/-- The path behind the word `load`: white space and quotes around it do not count. -/
def loadPath (cs : List Char) : String :=
  FilePath.normalize (String.ofList (trimChar '\x27' (trimChar '\x22' (Text.trim cs))))

/-- The command that a line is, semicolons at its end aside. -/
def command? (line : String) : Option Command :=
  let word := Text.trim (Text.dropEndWhile (· = ';') (Text.trim line.toList))
  match Text.lower (String.ofList word) with
  | "exit" | "quit" => some .exit
  | "help" => some .help
  | "clear" => some .clear
  | "tables" => some .tables
  | lowered =>
    if "load ".toList.isPrefixOf lowered.toList then some (.load (loadPath (word.drop 5))) else none

/-- The file that the line makes the session read. -/
def wantedFile? (s : Shell) (input : Option String) : Option String :=
  match s.reading, input with
  | .command, some line =>
    match command? line with
    | some (.load path) => some path
    | _ => none
  | _, _ => none

/-! ## Steps -/

/-- The next line is a command again. -/
def ready (s : Shell) (before : List Output) : List Output × Status Shell :=
  (before ++ [prompt], .waiting { s with reading := .command })

def noDataset : String := "No dataset loaded. Use 'load <path>' first."

/-- The tables of the dataset. -/
def listTables (s : Shell) : List Output :=
  match s.dataset with
  | none => [.line noDataset]
  | some d => d.tables.map fun (path, n) =>
      let count := if n = 1 then "1 row" else s!"{n} rows"
      .line s!"  {path} ({count})"

/-- The dataset of a file is used from now on, or the one there was if there is none in it. -/
def load (s : Shell) (files : Files) (path : String) : List Output × Status Shell :=
  match Dataset.ofFile (files path) with
  | .ok d =>
    { s with dataset := some d }.ready
      [.note (.loaded path d.root.length), .line s!"Loaded dataset: {path}", .line ""]
  | .error .overlong => ([], .failed .digits)
  | .error e => s.ready [.line ("Error: " ++ e.message path), .line ""]

/-- A command carried out. -/
def execute (s : Shell) (files : Files) : Command → List Output × Status Shell
  | .exit => ([], .finished 0)
  | .help => s.ready [help]
  | .clear => s.ready [.text "\x1b[2J\x1b[H"]
  | .tables => s.ready (s.listTables ++ [.line ""])
  | .load path => s.load files path

/-- A complete statement carried out. -/
def query (s : Shell) (sql : String) : List Output × Status Shell :=
  match s.dataset with
  | none => s.ready [.line (noDataset ++ "\n")]
  | some d =>
    let (journal, outcome) := answer d sql
    let before := journal.map Output.note
    match outcome with
    | .refused e => s.ready (before ++ [.line ("Error: " ++ e.message), .line ""])
    | .failed fault => (before, .failed fault)
    | .overlong => (before, .failed .digits)
    | .result r =>
      match present true s.pageSize r with
      | (shown, page :: pages) =>
        (before ++ shown ++ showPage page, .waiting { s with reading := .paging pages })
      | (shown, []) => s.ready (before ++ shown ++ [.line ""])

/-- A line that is read as a command or the start of a statement. -/
def stepCommand (s : Shell) (files : Files) (line : String) : List Output × Status Shell :=
  let line := Text.stripped line
  if line.isEmpty then s.ready []
  else
    match command? line with
    | some c => s.execute files c
    | none =>
      if Script.continues line then
        ([continuationPrompt], .waiting { s with reading := .continuation line })
      else s.query line

/-- A line that is read as more of a statement; an empty one and the end of input end it. -/
def stepContinuation (s : Shell) (text : String) (input : Option String) :
    List Output × Status Shell :=
  let line := Text.stripped (input.getD "")
  if line.isEmpty then s.query text
  else
    let text := text ++ "\n" ++ line
    if Script.continues text then
      ([continuationPrompt], .waiting { s with reading := .continuation text })
    else s.query text

/-- One line of input, none at its end. -/
def step (s : Shell) (files : Files) (input : Option String) : List Output × Status Shell :=
  match s.reading, input with
  | .command, none => ([.line ""], .finished 0)
  | .command, some line => s.stepCommand files line
  | .continuation text, input => s.stepContinuation text input
  | .paging rest, input =>
    match afterAnswer rest input with
    | page :: pages => (showPage page, .waiting { s with reading := .paging pages })
    | [] => s.ready [.line ""]

/-- The start of a session, with a dataset if a path is given. -/
def start (files : Files) (path : Option String) (pageSize : Int) : List Output × Status Shell :=
  match path with
  | none =>
    let s : Shell := ⟨none, pageSize, .command⟩
    s.ready (banner ++ [.line "No dataset loaded. Use 'load <path>' to open one.\n"])
  | some path =>
    match Dataset.ofFile (files path) with
    | .error .overlong => (banner, .failed .digits)
    | .error e => (banner ++ [.error ("Error: " ++ e.message path)], .finished 1)
    | .ok d =>
      let s : Shell := ⟨some d, pageSize, .command⟩
      s.ready (banner ++ [.note (.loaded path d.root.length), .line s!"Loaded dataset: {path}\n"])

end Shell

end JsonTables.Console
