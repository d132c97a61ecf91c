/-
  JsonTables.Main — the command line. Files, the terminal and the exit code are handled here, and all
  that is said and done with them is decided by `Console.Program`.
-/

import JsonTables.Console.Program

namespace JsonTables.Main

open Console

def usage : String :=
  "usage: tabql [-h] [-c COMMAND] [-f FILE] [-v] [--page-size PAGE_SIZE]\n" ++
    "             [--log-level \x7bDEBUG,INFO,WARNING,ERROR,CRITICAL\x7d] [dataset]"

/-- The fault that an error of the system is. -/
def faultOf : IO.Error → FileFault
  | .noFileOrDirectory .. => .notFound
  | .inappropriateType _ code details => .system code.toNat details
  | .permissionDenied _ code details => .system code.toNat details
  | e => .system 5 e.toString

/-- The text of a file. -/
def readFile (path : String) : IO (Except FileFault String) :=
  try return .ok (← IO.FS.readFile path) catch e => return .error (faultOf e)

/-- Some files, read. -/
def readFiles (paths : List String) : IO Files := do
  let contents ← paths.mapM fun path => do return (path, ← readFile path)
  return fun path => ((contents.find? (·.1 == path)).map Prod.snd).getD (.error .notFound)

/-- Writes the outputs in order. -/
def write (threshold : Severity) (outputs : List Output) : IO Unit := do
  let stdout ← IO.getStdout
  let stderr ← IO.getStderr
  for o in outputs do
    stdout.putStr o.toStdout
    stderr.putStr (o.toStderr threshold)
  stdout.flush

/-- The next line of input without its end, none at the end of input. -/
def readLine : IO (Option String) := do
  let line ← (← IO.getStdin).getLine
  if line.isEmpty then return none
  else return some (String.ofList (Text.dropEndWhile (· = '\n') line.toList))

/-- Goes on until the program is finished. -/
partial def loop (threshold : Severity) : Status Program → IO UInt32
  | .finished code => return code.toUInt32
  | .failed _ => do
    IO.eprintln "Error: arithmetic fault"
    return 1
  | .waiting p => do
    let input ← readLine
    let files ← readFiles (p.wantedFile? input).toList
    let (outputs, status) := p.step files input
    write threshold outputs
    loop threshold status

def run (arguments : List String) : IO UInt32 := do
  match Options.read arguments with
  | .error refusal =>
    if refusal = .help then IO.println usage else IO.eprintln usage
    return refusal.code.toUInt32
  | .ok o =>
    let files ← readFiles (Program.wantedAtStart o)
    let terminal ← (← IO.getStdin).isTty
    let (outputs, status) := Program.start files terminal o
    write o.logLevel outputs
    loop o.logLevel status

end JsonTables.Main

def main (arguments : List String) : IO UInt32 := JsonTables.Main.run arguments
