/-
  JsonTables.File — files: paths as they are shown, without segments that lead nowhere, and why a file cannot
  be read.
-/

import JsonTables.Text.Quoted
import JsonTables.Text.Search

namespace JsonTables

namespace FilePath

/-- What a path starts with: two slashes are a start of their own, any other number is the root. -/
def root : List Char → String
  | '/' :: '/' :: '/' :: _ => "/"
  | '/' :: '/' :: _ => "//"
  | '/' :: _ => "/"
  | _ => ""

/-- The segments of a path, empty ones and single dots left out. -/
def segments (path : String) : List String :=
  ((Text.splitOn '/' path.toList).map String.ofList).filter fun s => s ≠ "" ∧ s ≠ "."

/-- The path in its shown form. -/
def normalize (path : String) : String :=
  let shown := root path.toList ++ "/".intercalate (segments path)
  if shown.isEmpty then "." else shown

end FilePath

/-- Why a file cannot be read. -/
inductive FileFault where
  | notFound
  /-- Any other fault, by its number and what the system says of it. -/
  | system (code : Nat) (reason : String)
  deriving DecidableEq, Repr

namespace FileFault

/-- A directory stands at the path. -/
def isDirectory : FileFault := system 21 "Is a directory"

/-- The path leads through a file. -/
def notDirectory : FileFault := system 20 "Not a directory"

/-- Whether there is something at the path all the same. -/
def exists_ : FileFault → Bool
  | notFound => false
  | system code _ => code ≠ 20

def message (path : String) : FileFault → String
  | notFound => s!"[Errno 2] No such file or directory: {Text.quoted path}"
  | system code reason => s!"[Errno {code}] {reason}: {Text.quoted path}"

end FileFault

end JsonTables
