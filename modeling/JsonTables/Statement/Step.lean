/-
  JsonTables.Statement.Step — one token more. Operators bind in the order `OR`, `AND`, comparison, sums,
  products, minus sign, from the loosest to the tightest, those of one kind from left to right, and a
  comparison has no second one beside it. A parenthesis in a condition holds an expression if it can.
  `step` has no next state exactly where no statement goes on with the token.
-/

import JsonTables.Statement.State
import JsonTables.Token.Basic

namespace JsonTables.Statement

/-! ## Expressions -/

/-- How tightly an operator binds. -/
def level : Operator → Nat
  | .add | .sub => 1
  | .mul | .div | .rem => 2

def operator? : Symbol → Option Operator
  | .plus => some .add
  | .minus => some .sub
  | .star => some .mul
  | .slash => some .div
  | .percent => some .rem
  | _ => none

/-- A minus sign before an expression; before a number it belongs to the number. -/
def negated : Expr → Expr
  | .literal (.number n) => .literal (.number n.neg)
  | e => .negate e

/-- The operators that bind at least as tightly as `n` take `e` as their last operand. -/
def reduce (n : Nat) : List Frame → Expr → List Frame × Expr
  | .negate :: frames, e => reduce n frames (negated e)
  | .binary op left :: frames, e =>
    if n ≤ level op then reduce n frames (.binary op left e) else (.binary op left :: frames, e)
  | frames, e => (frames, e)

/-- A token that is an operand by itself. -/
def literal? : Token → Option Literal
  | .integer n => some (.number (.int n))
  | .float x => some (.number (.float x))
  | .text s => some (.text s)
  | .keyword .true_ _ => some (.bool true)
  | .keyword .false_ _ => some (.bool false)
  | .keyword .null _ => some .null
  | _ => none

/-! ## Conditions -/

def comparison? : Token → Option Comparison
  | .symbol .equal => some .equal
  | .symbol .notEqual | .symbol .unequal => some .notEqual
  | .symbol .less => some .less
  | .symbol .lessEqual => some .lessEqual
  | .symbol .greater => some .greater
  | .symbol .greaterEqual => some .greaterEqual
  | .keyword .contains _ => some .contains
  | _ => none

/-- Whether a condition may start here: not behind a comparison. -/
def mayCompare : List Link → Bool
  | .compare .. :: _ => false
  | _ => true

/-- An expression ends and is a condition, alone or as the right side of a comparison. -/
def conclude : List Link → Expr → List Link × Predicate
  | .compare op left :: links, e => (links, .compare op left e)
  | links, e => (links, .truth e)

/-- Every `AND` that waits takes the condition as its right side. -/
def joinAnds : List Link → Predicate → List Link × Predicate
  | .and left :: links, p => joinAnds links (.and left p)
  | links, p => (links, p)

/-- Every `AND` and `OR` that waits takes the condition as its right side. -/
def joinAll : List Link → Predicate → List Link × Predicate
  | .and left :: links, p => joinAll links (.and left p)
  | .or left :: links, p => joinAll links (.or left p)
  | links, p => (links, p)

/-! ## The ends of clauses -/

/-- The order of the clauses. -/
def rank : Clause → Nat
  | .select => 0
  | .from_ => 1
  | .where_ => 2
  | .groupBy => 3
  | .having => 4
  | .orderBy => 5
  | .limit => 6
  | .offset => 7
  | .with_ => 8

/-- The plan with the condition of a clause. -/
def setFilter (plan : Plan) (p : Predicate) : Filter → Plan
  | .where_ => { plan with where_ := some p }
  | .having => { plan with having := some p }

/-- The plan with one more select item. -/
def addItem (plan : Plan) (content : Selected) (label : Option String) : Plan :=
  { plan with select := plan.select ++ [⟨content, label⟩] }

/-- The plan with one more join. -/
def addJoin (plan : Plan) (join : Join) : Plan := { plan with joins := plan.joins ++ [join] }

/-- A name that is read as what it is if nothing more belongs to it. -/
def State.settled (s : State) : State :=
  match s.mode with
  | .name slot frames name _ => ⟨s.plan, .value slot frames (.column name)⟩
  | .emptyCall name => ⟨s.plan, .value .item [] (.call name [])⟩
  | .pathName .table name => ⟨{ s.plan with table := name }, .tables⟩
  | .pathName (.joined kind) name => ⟨s.plan, .joinedTable kind name⟩
  | .pathName (.rightKey kind table left) name => ⟨addJoin s.plan ⟨kind, table, left, name⟩, .tables⟩
  | _ => s

/-- The plan with the condition that ends here, if no parenthesis is open. -/
def closeFilter (plan : Plan) (filter : Filter) (links : List Link) (p : Predicate) :
    Option (Plan × Clause) :=
  match joinAll links p with
  | ([], p) => some (setFilter plan p filter, filter.clause)
  | _ => none

/-- The plan with the expression that ends here as the last of its clause. -/
def closeSlot (plan : Plan) (e : Expr) : Slot → Option (Plan × Clause)
  | .groupBy => some ({ plan with groupBy := plan.groupBy ++ [e] }, .groupBy)
  | .orderBy => some ({ plan with orderBy := plan.orderBy ++ [⟨e, .ascending⟩] }, .orderBy)
  | .condition filter links =>
    let (links, p) := conclude links e
    closeFilter plan filter links p
  | _ => none

/-- The plan and the clause that is complete, if a clause behind `FROM` may end here. -/
def State.close? (s : State) : Option (Plan × Clause) :=
  match s.mode with
  | .value slot frames e =>
    match reduce 0 frames e with
    | ([], e) => closeSlot s.plan e slot
    | _ => none
  | .predicate filter links p => closeFilter s.plan filter links p
  | .directed .orderBy => some (s.plan, .orderBy)
  | .tables => some (s.plan, .from_)
  | .counted clause => some (s.plan, clause)
  | _ => none

/-- The word that opens a clause, with what must come behind it. -/
def opening? : Token → Option (Clause × Mode)
  | .keyword .where_ _ => some (.where_, .operand (.condition .where_ []) [])
  | .keyword .group _ => some (.groupBy, .by_ .groupBy)
  | .keyword .having _ => some (.having, .operand (.condition .having []) [])
  | .keyword .order _ => some (.orderBy, .by_ .orderBy)
  | .keyword .limit _ => some (.limit, .count .limit)
  | .keyword .offset _ => some (.offset, .count .offset)
  | _ => none

/-- A clause ends and the token opens a later one, or is the final semicolon. -/
def State.advance (s : State) (t : Token) : Option State := do
  let (plan, clause) ← s.close?
  if t = .symbol .semicolon then return ⟨plan, .finished⟩
  let (next, mode) ← opening? t
  if rank clause < rank next then return ⟨plan, mode⟩ else none

/-! ## Steps -/

/-- The token as an operand or the start of one. -/
def stepOperand (slot : Slot) (frames : List Frame) (t : Token) : Option Mode :=
  match literal? t with
  | some l => some (.value slot frames (.literal l))
  | none =>
    match t, slot, frames with
    | .identifier name, _, _ => some (.name slot frames name true)
    | .keyword .contains written, _, _ => some (.callee slot frames written)
    | .keyword .left written, _, _ => some (.callee slot frames written)
    | .keyword .right written, _, _ => some (.callee slot frames written)
    | .symbol .minus, _, _ => some (.operand slot (.negate :: frames))
    | .symbol .star, .item, [] => some .star
    | .symbol .leftParen, .condition filter links, [] =>
      if mayCompare links then some (.operand (.condition filter (.group :: links)) [])
      else some (.operand slot [.group])
    | .symbol .leftParen, _, _ => some (.operand slot (.group :: frames))
    | _, _, _ => none

/-- The token behind a complete condition, as far as it belongs to the condition. -/
def stepPredicate (filter : Filter) (links : List Link) (p : Predicate) (t : Token) : Option Mode :=
  match t with
  | .keyword .and _ =>
    let (links, p) := joinAnds links p
    some (.operand (.condition filter (.and p :: links)) [])
  | .keyword .or _ =>
    let (links, p) := joinAll links p
    some (.operand (.condition filter (.or p :: links)) [])
  | .symbol .rightParen =>
    match joinAll links p with
    | (.group :: links, p) => some (.predicate filter links p)
    | _ => none
  | _ => none

/-- A parenthesis closes behind an expression that no frame waits for. -/
def closeParen (e : Expr) : Slot → Option Mode
  | .condition filter (.group :: links) => some (.value (.condition filter links) [] e)
  | .condition filter links =>
    let (links, p) := conclude links e
    stepPredicate filter links p (.symbol .rightParen)
  | .partition name before => some (.ranked ⟨name, (e :: before).reverse, []⟩)
  | .rank name partition before =>
    some (.ranked ⟨name, partition, (⟨e, .ascending⟩ :: before).reverse⟩)
  | _ => none

/-- A comma comes behind an expression that no frame waits for. -/
def nextInSlot (plan : Plan) (e : Expr) : Slot → Option State
  | .item => some ⟨addItem plan (.expr e) none, .operand .item []⟩
  | .partition name before => some ⟨plan, .operand (.partition name (e :: before)) []⟩
  | .rank name partition before =>
    some ⟨plan, .operand (.rank name partition (⟨e, .ascending⟩ :: before)) []⟩
  | .groupBy => some ⟨{ plan with groupBy := plan.groupBy ++ [e] }, .operand .groupBy []⟩
  | .orderBy =>
    some ⟨{ plan with orderBy := plan.orderBy ++ [⟨e, .ascending⟩] }, .operand .orderBy []⟩
  | .condition .. => none

/-- A direction comes behind a key of an order. -/
def direct (plan : Plan) (e : Expr) (direction : Direction) : Slot → Option State
  | .rank name partition before =>
    some ⟨plan, .directed (.rank name partition (⟨e, direction⟩ :: before))⟩
  | .orderBy =>
    some ⟨{ plan with orderBy := plan.orderBy ++ [⟨e, direction⟩] }, .directed .orderBy⟩
  | _ => none

/-- The token behind an operand that no frame waits for. -/
def stepWhole (plan : Plan) (slot : Slot) (e : Expr) (t : Token) : Option State :=
  match slot, t with
  | _, .symbol .rightParen => (closeParen e slot).map (⟨plan, ·⟩)
  | _, .symbol .comma => nextInSlot plan e slot
  | _, .keyword .asc _ => direct plan e .ascending slot
  | _, .keyword .desc _ => direct plan e .descending slot
  | .item, .keyword .as_ _ => some ⟨plan, .label (.expr e)⟩
  | .item, .keyword .from_ _ => some ⟨addItem plan (.expr e) none, .path .table⟩
  | .partition name before, .keyword .order _ =>
    some ⟨plan, .by_ (.rank name (e :: before).reverse [])⟩
  | .condition filter links, t =>
    match if mayCompare links then comparison? t else none with
    | some op => some ⟨plan, .operand (.condition filter (.compare op e :: links)) []⟩
    | none =>
      let (links, p) := conclude links e
      (stepPredicate filter links p t).map (⟨plan, ·⟩)
  | _, _ => none

/-- The token behind an operand. -/
def stepValue (plan : Plan) (slot : Slot) (frames : List Frame) (e : Expr) (t : Token) :
    Option State :=
  match (match t with | .symbol s => operator? s | _ => none) with
  | some op =>
    let (frames, e) := reduce (level op) frames e
    some ⟨plan, .operand slot (.binary op e :: frames)⟩
  | none =>
    match reduce 0 frames e, t with
    | ([], e), t => stepWhole plan slot e t
    | (.group :: frames, e), .symbol .rightParen => some ⟨plan, .value slot frames e⟩
    | (.argument name before :: frames, e), .symbol .rightParen =>
      some ⟨plan, .value slot frames (.call name (e :: before).reverse)⟩
    | (.argument name before :: frames, e), .symbol .comma =>
      some ⟨plan, .operand slot (.argument name (e :: before) :: frames)⟩
    | _, _ => none

/-- The token behind a complete table, as far as it belongs to a join. -/
def stepTables (t : Token) : Option Mode :=
  match t with
  | .keyword .join _ => some (.path (.joined .inner))
  | .keyword .inner _ => some (.joinWord .inner)
  | .keyword .left _ => some (.outerKind .left)
  | .keyword .right _ => some (.outerKind .right)
  | .keyword .full _ => some (.outerKind .full)
  | _ => none

/-- The path is a text, which only names tables. -/
def textPath (plan : Plan) (s : String) : Target → Option State
  | .table => some ⟨{ plan with table := s }, .tables⟩
  | .joined kind => some ⟨plan, .joinedTable kind s⟩
  | _ => none

/-- The token makes a name longer, or a function of it. -/
def State.extend (s : State) (t : Token) : Option State :=
  match s.mode, t with
  | .name slot frames name _, .symbol .dot => some ⟨s.plan, .dot slot frames name⟩
  | .name slot frames name true, .symbol .leftParen => some ⟨s.plan, .arguments slot frames name⟩
  | .emptyCall name, .keyword .over_ _ => some ⟨s.plan, .over_ name⟩
  | .pathName target name, .symbol .dot => some ⟨s.plan, .pathDot target name⟩
  | _, _ => none

/-- The token behind something that is complete as far as it goes. -/
def State.follow (s : State) (t : Token) : Option State :=
  match s.mode, t with
  | .start, .keyword .select _ => some ⟨s.plan, .selecting⟩
  | .selecting, .keyword .distinct _ => some ⟨{ s.plan with distinct := true }, .operand .item []⟩
  | .selecting, t => (stepOperand .item [] t).map (⟨s.plan, ·⟩)
  | .operand slot frames, t => (stepOperand slot frames t).map (⟨s.plan, ·⟩)
  | .dot slot frames name, .identifier part =>
    some ⟨s.plan, .name slot frames (name ++ "." ++ part) false⟩
  | .callee slot frames name, .symbol .leftParen => some ⟨s.plan, .arguments slot frames name⟩
  | .arguments slot frames name, .symbol .rightParen =>
    match slot, frames with
    | .item, [] => some ⟨s.plan, .emptyCall name⟩
    | _, _ => some ⟨s.plan, .value slot frames (.call name [])⟩
  | .arguments slot frames name, .symbol .star => some ⟨s.plan, .starArgument slot frames name⟩
  | .arguments slot frames name, t =>
    (stepOperand slot (.argument name [] :: frames) t).map (⟨s.plan, ·⟩)
  | .starArgument slot frames name, .symbol .rightParen =>
    some ⟨s.plan, .value slot frames (.callStar name)⟩
  | .value slot frames e, t => stepValue s.plan slot frames e t
  | .predicate filter links p, t => (stepPredicate filter links p t).map (⟨s.plan, ·⟩)
  | .over_ name, .symbol .leftParen => some ⟨s.plan, .window name⟩
  | .window name, .symbol .rightParen => some ⟨s.plan, .ranked ⟨name, [], []⟩⟩
  | .window name, .keyword .partition _ => some ⟨s.plan, .by_ (.partition name [])⟩
  | .window name, .keyword .order _ => some ⟨s.plan, .by_ (.rank name [] [])⟩
  | .ranked w, .keyword .as_ _ => some ⟨s.plan, .label (.window w)⟩
  | .ranked w, .symbol .comma => some ⟨addItem s.plan (.window w) none, .operand .item []⟩
  | .ranked w, .keyword .from_ _ => some ⟨addItem s.plan (.window w) none, .path .table⟩
  | .star, .symbol .comma => some ⟨addItem s.plan .star none, .operand .item []⟩
  | .star, .keyword .from_ _ => some ⟨addItem s.plan .star none, .path .table⟩
  | .label content, .identifier name => some ⟨addItem s.plan content (some name), .itemDone⟩
  | .label content, .text name => some ⟨addItem s.plan content (some name), .itemDone⟩
  | .itemDone, .symbol .comma => some ⟨s.plan, .operand .item []⟩
  | .itemDone, .keyword .from_ _ => some ⟨s.plan, .path .table⟩
  | .by_ slot, .keyword .by_ _ => some ⟨s.plan, .operand slot []⟩
  | .directed slot, .symbol .comma => some ⟨s.plan, .operand slot []⟩
  | .directed (.rank name partition before), .symbol .rightParen =>
    some ⟨s.plan, .ranked ⟨name, partition, before.reverse⟩⟩
  | .path target, .identifier name => some ⟨s.plan, .pathName target name⟩
  | .path target, .text path => textPath s.plan path target
  | .pathName (.leftKey kind table) name, .symbol .equal =>
    some ⟨s.plan, .path (.rightKey kind table name)⟩
  | .pathDot target name, .identifier part => some ⟨s.plan, .pathName target (name ++ "." ++ part)⟩
  | .tables, t => (stepTables t).map (⟨s.plan, ·⟩)
  | .outerKind kind, .keyword .outer _ => some ⟨s.plan, .joinWord kind⟩
  | .outerKind kind, .keyword .join _ => some ⟨s.plan, .path (.joined kind)⟩
  | .joinWord kind, .keyword .join _ => some ⟨s.plan, .path (.joined kind)⟩
  | .joinedTable kind table, .keyword .on_ _ => some ⟨s.plan, .path (.leftKey kind table)⟩
  | .count .limit, .integer n => some ⟨{ s.plan with limit := some n }, .counted .limit⟩
  | .count .offset, .integer n => some ⟨{ s.plan with offset := n }, .counted .offset⟩
  | _, _ => none

/-- The state after one more token, none if no statement goes on with it. -/
def State.step (s : State) (t : Token) : Option State :=
  match s.extend t with
  | some s => some s
  | none =>
    match s.settled.follow t with
    | some s => some s
    | none => s.settled.advance t

/-- The plan of a statement that ends here. -/
def State.plan? (s : State) : Option Plan :=
  match s.mode with
  | .finished => some s.plan
  | _ => s.settled.close?.map Prod.fst

end JsonTables.Statement
