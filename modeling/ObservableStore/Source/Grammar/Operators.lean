import ObservableStore.Source.Grammar.Patterns

/-!
# Binary operators

Operators bind in levels, from assignment (`1`) to casts (`13`). An operator takes on its right
what binds more tightly than itself; assignments take other assignments as well. A comparison is not
compared again, and a range is not an operand on the left.
-/

namespace ObservableStore.Source.Grammar

open Reader Ahead

/-- The operators with their levels; one that begins another stands behind it. -/
def operators : List (String × Level) :=
  [("+=", 1), ("-=", 1), ("*=", 1), ("/=", 1), ("%=", 1), ("^=", 1), ("&=", 1), ("|=", 1),
    ("<<=", 1), (">>=", 1), ("&&", 4), ("||", 3), ("<<", 10), (">>", 10), ("==", 6), ("<=", 6),
    ("!=", 6), (">=", 6), ("+", 11), ("-", 11), ("*", 12), ("/", 12), ("%", 12), ("^", 8),
    ("&", 9), ("|", 7), ("<", 6), (">", 6)]

/-- The operator that is next, with its level. -/
def operator? (ts : List Token) : Option (String × Level) :=
  operators.find? fun (o, _) => isOp o ts

/-- Whether an equals sign of an assignment is next. -/
def isAssignment (ts : List Token) : Bool :=
  isOp "=" ts && !isOp "=>" ts

/-- The level of what is next, or the lowest one when it is no operator. -/
def levelAhead (ts : List Token) : Level :=
  match operator? ts with
  | some (_, level) => level
  | none =>
    if isAssignment ts then Level.assignment
    else if isOp ".." ts then Level.range
    else if isWord "as" ts then Level.cast
    else Level.jump

/-- The operand on the right of an operator of a level. -/
def rightOperand (r : Rules) (structs : Bool) (level : Level) : Reader Expr := do
  let first ← r.unary structs
  iterate (fun e => do
    let next ← fun c => some (levelAhead c.rest, c)
    if next > level || (next == level && level == Level.assignment) then
      let e ← r.climb structs next e
      return some e
    return none) first

/-- Whether a range that does not include its end may lack it here. -/
def lacksEnd (structs : Bool) (ts : List Token) : Bool :=
  ts.isEmpty || isDot ts || (!structs && isGroup .brace ts) || isWord "as" ts
    || [",", ";", "?", "=>", "=", "+", "/", "%", "^", ">", "<=", "!=", "-=", "*=", "&=", "|=",
      "<<="].any (isOp · ts)

/-- The dots of a range and its end, which is there or not. -/
def rangeFinish (r : Rules) (structs : Bool) : Reader (String × Option Expr) := do
  let included ← unwritten dots
  if !included && (← ahead (lacksEnd structs)) then return ("..", none)
  let finish ← rightOperand r structs Level.range
  return (if included then "..=" else "..", some finish)

/-- Whether something is next that cannot follow a cast. -/
def followsNoCast (ts : List Token) : Bool :=
  isDot ts || isOp "?" ts || isGroup .bracket ts || isGroup .parenthesis ts

/-- One operator with its right side, behind an expression, if it binds at least as tightly as a
level. -/
def climbOnce (r : Rules) (structs : Bool) (base : Level) (left : Expr) :
    Reader (Option Expr) := do
  if left.isRange then return none
  match ← fun c => some (operator? c.rest, c) with
  | some (o, level) =>
    if level < base then return none
    if level == Level.comparison && left.isComparison then refuse
    unwritten (op o)
    let right ← rightOperand r structs level
    return some (.binary o level left right)
  | none =>
    if base ≤ Level.assignment && (← ahead isAssignment) then
      unwritten (op "=")
      let right ← rightOperand r structs Level.assignment
      return some (.binary "=" Level.assignment left right)
    if base ≤ Level.range && (← ahead (isOp "..")) then
      match ← rangeFinish r structs with
      | (dots, some finish) => return some (.range left dots finish)
      | (_, none) => return some (.rangeFrom left)
    if base ≤ Level.cast && (← ahead (isWord "as")) then
      unwritten (word "as")
      let type ← tokensOf (ignoring (r.type false))
      if ← ahead followsNoCast then refuse
      return some (.cast left type)
    return none

/-- The binary operators behind an expression that bind at least as tightly as a level. -/
def climb (r : Rules) (structs : Bool) (base : Level) (left : Expr) : Reader Expr :=
  iterate (climbOnce r structs base) left

end ObservableStore.Source.Grammar
