/-
  JsonTables.Statement.State — what is known while the tokens of a statement are read one by one: the
  plan so far, and what has been opened and not yet finished. Expressions are read with a stack of
  frames, each waiting for an operand, and conditions with a stack of links around it.
-/

import JsonTables.Plan
import JsonTables.QueryError

namespace JsonTables.Statement

/-- An open part of an expression that waits for its operand. -/
inductive Frame where
  | negate
  | binary (op : Operator) (left : Expr)
  | group
  /-- A call with the arguments read so far, the last one first. -/
  | argument (name : String) (before : List Expr)

/-- An open part of a condition that waits for what comes next. -/
inductive Link where
  | compare (op : Comparison) (left : Expr)
  | and (left : Predicate)
  | or (left : Predicate)
  | group

/-- The clauses that hold a condition. -/
inductive Filter where
  | where_ | having
  deriving DecidableEq, Repr

def Filter.clause : Filter → Clause
  | where_ => .where_
  | having => .having

/-- What an expression is read for. Lists hold what was read so far, the last first. -/
inductive Slot where
  | item
  /-- The partition of a window. -/
  | partition (name : String) (before : List Expr)
  /-- The order inside a window. -/
  | rank (name : String) (partition : List Expr) (before : List OrderItem)
  | groupBy
  | orderBy
  | condition (filter : Filter) (links : List Link)

/-- What a path is read for. -/
inductive Target where
  | table
  | joined (kind : JoinKind)
  | leftKey (kind : JoinKind) (table : String)
  | rightKey (kind : JoinKind) (table : String) (leftKey : String)

/-- What has just been read, which decides what may come next. -/
inductive Mode where
  | start
  /-- `SELECT`. -/
  | selecting
  /-- An operand must come. -/
  | operand (slot : Slot) (frames : List Frame)
  /-- A name, which is a column unless a parenthesis follows; one without dots may be a function. -/
  | name (slot : Slot) (frames : List Frame) (name : String) (bare : Bool)
  /-- The dot behind a column. -/
  | dot (slot : Slot) (frames : List Frame) (name : String)
  /-- A reserved word as the name of a function. -/
  | callee (slot : Slot) (frames : List Frame) (name : String)
  /-- The parenthesis behind the name of a function. -/
  | arguments (slot : Slot) (frames : List Frame) (name : String)
  /-- The star in a call. -/
  | starArgument (slot : Slot) (frames : List Frame) (name : String)
  /-- A call without arguments at the start of a select item, which may be a rank. -/
  | emptyCall (name : String)
  /-- An operand is complete. -/
  | value (slot : Slot) (frames : List Frame) (e : Expr)
  /-- A condition in parentheses is complete. -/
  | predicate (filter : Filter) (links : List Link) (p : Predicate)
  /-- `OVER`. -/
  | over_ (name : String)
  /-- The parenthesis behind `OVER`. -/
  | window (name : String)
  /-- A rank is complete. -/
  | ranked (w : Window)
  /-- The star as a select item. -/
  | star
  /-- `AS`. -/
  | label (content : Selected)
  /-- A select item is complete. -/
  | itemDone
  /-- A word that goes with `BY`. -/
  | by_ (slot : Slot)
  /-- A key of an order is complete with its direction. -/
  | directed (slot : Slot)
  /-- A path must come. -/
  | path (target : Target)
  | pathName (target : Target) (name : String)
  | pathDot (target : Target) (name : String)
  /-- A table or join is complete. -/
  | tables
  /-- `LEFT`, `RIGHT` or `FULL`. -/
  | outerKind (kind : JoinKind)
  /-- Only `JOIN` is missing. -/
  | joinWord (kind : JoinKind)
  /-- The path of a joined table as a text. -/
  | joinedTable (kind : JoinKind) (table : String)
  /-- `LIMIT` or `OFFSET`. -/
  | count (clause : Clause)
  | counted (clause : Clause)
  /-- The final semicolon. -/
  | finished

structure State where
  plan : Plan
  mode : Mode

def State.start : State := ⟨Plan.blank, .start⟩

end JsonTables.Statement
