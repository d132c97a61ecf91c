/-
  JsonTables.Console.Options — the arguments of the command line. Options have a short name, a long name
  that may be cut short where it stays clear, or both; the value of an option stands behind `=`, right
  behind the letter of a short one, or as the next argument. At most one argument is no option, and `--`
  says that no more options follow.
-/

import JsonTables.File
import JsonTables.Note
import JsonTables.Table.Pager
import JsonTables.Text.Digit

namespace JsonTables.Console

structure Options where
  dataset : Option String
  command : Option String
  file : Option String
  verbose : Bool
  pageSize : Int
  logLevel : Severity
  deriving DecidableEq, Repr

/-- What holds where the arguments say nothing. -/
def Options.default : Options := ⟨none, none, none, false, Pager.defaultSize, .warning⟩

/-- Why the program does not start. -/
inductive Refusal where
  /-- The help was asked for. -/
  | help
  /-- The arguments do not fit. -/
  | usage
  deriving DecidableEq, Repr

def Refusal.code : Refusal → Nat
  | help => 0
  | usage => 2

namespace Options

inductive Name where
  | help | command | file | verbose | pageSize | logLevel
  deriving DecidableEq, Repr

/-- Every option by all its spellings. -/
def spellings : List (String × Name) :=
  [("-h", .help), ("--help", .help), ("-c", .command), ("--command", .command), ("-f", .file),
    ("--file", .file), ("-v", .verbose), ("--verbose", .verbose), ("--page-size", .pageSize),
    ("--log-level", .logLevel)]

def named? (spelling : String) : Option Name := (spellings.find? (·.1 == spelling)).map Prod.snd

/-- Whether the option has a value. -/
def Name.takesValue : Name → Bool
  | help | verbose => false
  | command | file | pageSize | logLevel => true

/-- How an argument is read. -/
inductive Argument where
  | plain (s : String)
  /-- An option, with those that are joined in front of it and the value that is joined to it. -/
  | option (flags : List Name) (name : Name) (joined : Option String)
  /-- An option with a value that it cannot have. -/
  | broken
  /-- No option, or letters of which only those in front are options. -/
  | unknown (flags : List Name)
  /-- An abbreviation of several options. -/
  | ambiguous
  | divider
  deriving DecidableEq, Repr

/-- Whether the text looks like a negative number. -/
def isNegativeNumber (cs : List Char) : Bool :=
  match cs with
  | '-' :: rest =>
    let digits := rest.takeWhile Text.isDecimal
    match rest.drop digits.length with
    | [] => !digits.isEmpty
    | '.' :: fraction => !fraction.isEmpty && fraction.all Text.isDecimal
    | _ => false
  | _ => false

/-- A text cut at its first equals sign. -/
def cutAtEquals (cs : List Char) : List Char × Option (List Char) :=
  match cs.dropWhile (· ≠ '=') with
  | _ :: value => (cs.takeWhile (· ≠ '='), some value)
  | [] => (cs, none)

/-- A short option with the letters joined to it. If it has a value, they are the value, behind an equals
sign if there is one; if not, they are options too, of which the last may have one. -/
def cluster (name : Name) : List Char → Argument
  | [] => .option [] name none
  | c :: rest =>
    if name.takesValue then
      .option [] name (some (String.ofList (if c = '=' then rest else c :: rest)))
    else if c = '=' ∨ c = '-' then .broken
    else match named? (String.ofList ['-', c]) with
      | none => .unknown [name]
      | some next => match cluster next rest with
        | .option flags last joined => .option (name :: flags) last joined
        | .unknown flags => .unknown (name :: flags)
        | other => other

/-- A long option with the value behind its equals sign, if there is one. -/
def withValue (name : Name) (value : Option (List Char)) : Argument :=
  match value with
  | none => .option [] name none
  | some value => if name.takesValue then .option [] name (some (String.ofList value)) else .broken

/-- What an argument may be that starts with a dash and is no option in full. -/
def abbreviated (cs : List Char) : List Argument :=
  match cs with
  | '-' :: '-' :: _ =>
    let (front, value) := cutAtEquals cs
    (spellings.filter fun s => front.isPrefixOf s.1.toList).map fun s => withValue s.2 value
  | '-' :: letter :: rest => ((named? (String.ofList ['-', letter])).map (cluster · rest)).toList
  | _ => []

/-- How an argument in front of any divider is read. -/
def classify (s : String) : Argument :=
  match s.toList with
  | '-' :: c :: rest =>
    let cs := '-' :: c :: rest
    let (front, value) := cutAtEquals cs
    match (if c = '-' then named? (String.ofList front) else none) with
    | some name => withValue name value
    | none =>
      match abbreviated cs with
      | [argument] => argument
      | _ :: _ :: _ => .ambiguous
      | [] => if isNegativeNumber cs || cs.contains ' ' then .plain s else .unknown []
  | _ => .plain s

/-- All arguments; behind a divider none is an option. -/
def classifyAll : List String → List Argument
  | [] => []
  | s :: rest => if s == "--" then .divider :: rest.map .plain else classify s :: classifyAll rest

/-- The digits of an integer, which single underscores may divide. -/
def digits? : List Char → Option (List Nat)
  | [c] => (Text.digitValue? c).map ([·])
  | c :: '_' :: rest => do return (← Text.digitValue? c) :: (← digits? rest)
  | c :: rest => do return (← Text.digitValue? c) :: (← digits? rest)
  | [] => none

/-- The integer that a text is. -/
def integer? (s : String) : Option Int :=
  match Text.trim s.toList with
  | '-' :: rest => (digits? rest).map fun ds => -(Text.ofDigits ds : Int)
  | '+' :: rest => (digits? rest).map fun ds => (Text.ofDigits ds : Int)
  | cs => (digits? cs).map fun ds => (Text.ofDigits ds : Int)

/-- The severity of a name, in whatever case. -/
def severity? (s : String) : Option Severity :=
  [Severity.debug, .info, .warning, .error, .critical].find? fun l => l.name == Text.upper s

/-- The options with the value of one. -/
def set (o : Options) (name : Name) (value : String) : Except Refusal Options :=
  match name with
  | .command => .ok { o with command := some value }
  | .file => .ok { o with file := some (FilePath.normalize value) }
  | .pageSize => match integer? value with
    | some n => .ok { o with pageSize := n }
    | none => .error .usage
  | .logLevel => match severity? value with
    | some l => .ok { o with logLevel := l }
    | none => .error .usage
  | .help | .verbose => .ok o

/-- The options with one that has no value. -/
def flag (o : Options) : Name → Except Refusal Options
  | .help => .error .help
  | _ => .ok { o with verbose := true }

/-- Whether the argument that is no option has come. -/
inductive Place where
  | free
  /-- It came last, so that a divider still belongs to it. -/
  | justTaken
  | taken
  deriving DecidableEq, Repr

/-- How far the arguments are read. -/
structure Progress where
  options : Options
  place : Place
  /-- Whether an argument fits nowhere. -/
  leftOver : Bool

/-- An argument that is no option, or a divider. -/
def Progress.addPlain (p : Progress) (argument : Option String) : Progress :=
  match p.place, argument with
  | .free, some s =>
    { p with options := { p.options with dataset := some (FilePath.normalize s) }, place := .justTaken }
  | .free, none => p
  | .justTaken, none => { p with place := .taken }
  | _, _ => { p with place := .taken, leftOver := true }

/-- An option that is complete, with its value if it has one. -/
def Progress.addOption (p : Progress) (flags : List Name) (name : Name) (value : Option String) :
    Except Refusal Progress := do
  let flagged ← flags.foldlM flag p.options
  let options ← match value with
    | some value => flagged.set name value
    | none => flagged.flag name
  return { p with options, place := if p.place = .free then .free else .taken }

/-- The arguments one after another. -/
def readAll (p : Progress) : List Argument → Except Refusal Progress
  | [] => .ok p
  | .plain s :: rest => readAll (p.addPlain (some s)) rest
  | .divider :: rest => readAll (p.addPlain none) rest
  | .unknown flags :: rest => do
    let options ← flags.foldlM flag p.options
    readAll { p with options, leftOver := true } rest
  | .broken :: _ | .ambiguous :: _ => .error .usage
  | .option flags name (some value) :: rest => do
    readAll (← p.addOption flags name (some value)) rest
  | .option flags name none :: rest =>
    if name.takesValue then
      match rest with
      | .plain value :: rest => do readAll (← p.addOption flags name (some value)) rest
      | _ => .error .usage
    else do readAll (← p.addOption flags name none) rest

/-- The options that the arguments say. -/
def read (arguments : List String) : Except Refusal Options := do
  let classified := classifyAll arguments
  if classified.contains .ambiguous then throw .usage
  let p ← readAll ⟨Options.default, .free, false⟩ classified
  if p.leftOver then throw .usage else return p.options

end Options

end JsonTables.Console
