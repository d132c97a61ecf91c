/-
  JsonTables.Console.Program — the program as a whole: a batch of statements if a command or a file of
  statements is given, and else the interactive session.
-/

import JsonTables.Console.Batch
import JsonTables.Console.Options
import JsonTables.Console.Shell

namespace JsonTables.Console

/-- What runs and waits for input. -/
inductive Program where
  | batch (b : Batch)
  | shell (s : Shell)

namespace Program

/-- The files that a batch or session begins with. -/
def wantedAtStart (o : Options) : List String := o.dataset.toList ++ o.file.toList

/-- The statements of a file carried out. -/
def startScript (settings : BatchSettings) (files : Files) (path : String) :
    List Output × Status Batch :=
  match files path with
  | .ok text => runScript settings text
  | .error fault =>
    if fault.exists_ then ([.error ("Error reading file: " ++ fault.message path)], .finished 1)
    else ([.error ("Error: File not found: " ++ path)], .finished 1)

/-- The batch that the options ask for. -/
def startBatch (files : Files) (terminal : Bool) (o : Options) : List Output × Status Batch :=
  match o.dataset with
  | none =>
    ([.error "Error: Dataset required when using -c/--command or -f/--file"], .finished 1)
  | some path =>
    match Dataset.ofFile (files path) with
    | .error .overlong => ([], .failed .digits)
    | .error e => ([.error ("Error: " ++ e.message path)], .finished 1)
    | .ok d =>
      let settings : BatchSettings := ⟨d, o.verbose, terminal, o.pageSize⟩
      let (shown, status) := match o.file with
        | some script => startScript settings files script
        | none => Batch.run settings [o.command.getD ""]
      (.note (.loaded path d.root.length) :: shown, status)

/-- Whether the options ask for a batch; an empty command does not. -/
def isBatch (o : Options) : Bool := o.file.isSome || !(o.command.getD "").isEmpty

/-- The start of the program. -/
def start (files : Files) (terminal : Bool) (o : Options) : List Output × Status Program :=
  if isBatch o then
    let (shown, status) := startBatch files terminal o
    (shown, status.map batch)
  else
    let (shown, status) := Shell.start files o.dataset o.pageSize
    (shown, status.map shell)

/-- The file that a line of input makes the program read. -/
def wantedFile? (p : Program) (input : Option String) : Option String :=
  match p with
  | batch _ => none
  | shell s => s.wantedFile? input

/-- One line of input, none at its end. -/
def step (p : Program) (files : Files) (input : Option String) : List Output × Status Program :=
  match p with
  | batch b =>
    let (shown, status) := b.step input
    (shown, status.map batch)
  | shell s =>
    let (shown, status) := s.step files input
    (shown, status.map shell)

end Program

end JsonTables.Console
