import ObservableStore.Source.Expression

/-!
# Writing expressions

An expression is written out again with parentheses where another reading is possible without them.
Whether one is possible depends on where the expression stands (`Place`): which operators are next
to it, and whether it begins a statement, an arm or what a condition ends with.

An operand whose operator binds less tightly than the one beside it may still go without
parentheses when nothing in it reaches for the operator behind it. `Expr.reach` looks at the end of
the operand, and `Place.leavesFront` at its beginning. Where they cannot tell, there are
parentheses, although none may have been there.
-/

namespace ObservableStore.Source

/-- Where an expression is written. -/
structure Place where
  /-- The level of the operator in front. -/
  previous : Level := 0
  /-- The level of the operator behind. -/
  next : Level := 0
  /-- Whether the expression is a statement. -/
  statement : Bool := false
  /-- Whether it begins a statement that goes on behind it. -/
  beginsStatement : Bool := false
  /-- Whether the expression is an arm. -/
  arm : Bool := false
  /-- Whether it begins an arm that goes on behind it. -/
  beginsArm : Bool := false
  /-- Whether a brace behind it would be the block of a condition. -/
  condition : Bool := false
  /-- Whether it is the end of a condition. -/
  endsCondition : Bool := false
  /-- Whether it begins, in a condition, an operand that may be missing. -/
  beginsOptional : Bool := false
  /-- Whether the operator behind could as well begin an expression. -/
  nextBegins : Bool := false
  /-- Whether there is an operator behind. -/
  nextContinues : Bool := false
  /-- Whether the operator behind could as well open a list of generic arguments. -/
  nextOpens : Bool := false

namespace Place

/-- Between delimiters. -/
def alone : Place := {}

/-- A statement. -/
def ofStatement : Place := { statement := true }

/-- The expression of an arm. -/
def ofArm : Place := { arm := true }

/-- The expression in the head of a block. -/
def ofCondition : Place := { condition := true, endsCondition := true }

/-- The operand on the left of an operator. -/
def left (p : Place) (level : Level) (begins opens : Bool) : Place :=
  { p with
    next := level
    statement := false
    beginsStatement := p.statement || p.beginsStatement
    arm := false
    beginsArm := p.arm || p.beginsArm
    endsCondition := false
    nextBegins := begins
    nextContinues := true
    nextOpens := opens }

/-- The operand in front of a dot or a question mark. A block goes on there in a statement. -/
def leftOfDot (p : Place) : Place :=
  { p with
    next := Level.atom
    statement := p.statement || p.beginsStatement
    beginsStatement := false
    arm := p.arm || p.beginsArm
    beginsArm := false
    endsCondition := false
    nextBegins := false
    nextContinues := true
    nextOpens := false }

/-- The operand on the right of an operator. -/
def right (p : Place) (level : Level) : Place :=
  { p with
    previous := level
    statement := false
    beginsStatement := false
    arm := false
    beginsArm := false
    beginsOptional := false }

/-- The end of a range. -/
def finish (p : Place) : Place :=
  { p.right Level.range with beginsOptional := p.condition }

/-- The value of a jump, which may be a struct literal even in a condition. -/
def value (p : Place) (kind : Jump) : Place :=
  { p.right Level.jump with
    condition := false
    beginsOptional := p.condition && kind != .returning }

end Place

namespace Expr

/-! ## How types end -/

/-- Whether the tokens of a bound begin with the mark of a constant one, `const` or `[const]`. -/
def startsConstant : List Token → Bool
  | .word w :: _ => w == "const"
  | .group .bracket _ :: _ => true
  | _ => false

mutual

/-- Whether a list of generic arguments could stand behind the last token of a type; `bound` when
what stands there in parentheses is a bound. A constant bound is not understood further and takes
none. -/
def endsInName (bound : Bool) : Token → Bool
  | .word w => w != "_"
  | .group .parenthesis ts => bound && !startsConstant ts && endsInNameAll false ts
  | _ => false

/-- The same for the tokens of a type, of which the last one counts. -/
def endsInNameAll (bound : Bool) : List Token → Bool
  | [] => false
  | t :: ts =>
    if ts.isEmpty then endsInName bound t
    else endsInNameAll (match t with
      | .word w => w == "dyn" || w == "impl"
      | _ => false) ts

end

/-! ## Forms of expressions -/

/-- Whether the expression is a jump without a value. -/
def isEmptyJump (e : Expr) : Bool :=
  match e.bare with
  | .atom (.emptyJump _) _ => true
  | _ => false

/-- Whether the expression goes on to the end of what it stands in. -/
def reachesEnd (e : Expr) : Bool :=
  match e.bare with
  | .atom (.emptyJump _) _ | .jump _ _ _ | .closure _ _ _ | .binding _ _ => true
  | .rangeTo _ _ | .rangeAll => true
  | _ => false

/-- Whether the expression is a cast to a type behind which a list of generic arguments could
stand. -/
def isOpenCast (e : Expr) : Bool :=
  match e.bare with
  | .cast _ type => endsInNameAll false type
  | _ => false

/-- Whether the expression is a block without a head and without attributes of its own. -/
def isPlainBlock : Expr → Bool
  | .atom .block [.group .brace (.punct '#' _ :: .punct '!' _ :: _)] => false
  | .atom .block _ => true
  | _ => false

/-- Whether operands of the expression are on both sides of an operator, or would be in a whole
range. -/
def isOperation : Expr → Bool
  | .binary _ _ _ _ | .cast _ _ => true
  | e => e.isRange

end Expr

namespace Place

/-- Whether the expression has parentheses here because of its own form: a block would end the
statement or the condition that it begins, or a brace behind it would belong to it. -/
def encloses (p : Place) (e : Expr) : Bool :=
  (p.beginsStatement && !e.needsSemicolon)
    || (p.beginsArm && !e.needsComma)
    || match e.bare with
      | .binding _ _ => p.statement || p.beginsStatement
      | .atom .structLiteral _ => p.condition
      | .atom (.emptyJump false) _ => p.endsCondition
      | .atom (.emptyJump true) _ | .atom .path _ | .rangeFrom _ | .rangeAll =>
        p.endsCondition && !p.condition
      | _ => p.beginsOptional && e.isPlainBlock

/-- The level of an expression beside its neighbours. -/
def levelOf (p : Place) (e : Expr) : Level :=
  if p.nextBegins && e.isEmptyJump then Level.jump
  else if !p.nextContinues && e.reachesEnd then Level.sign
  else if p.nextOpens && e.isOpenCast then Level.jump
  else e.level

end Place

/-! ## How far the end of an expression reaches -/

/-- What becomes of the operator behind an expression that is written without parentheses. -/
inductive Reach where
  /-- Nothing in the expression can take it. -/
  | stops
  /-- It is left to what the expression stands in. -/
  | returns
  /-- It is taken into the expression. -/
  | takes
deriving DecidableEq, Repr

namespace Place

/-- What becomes of the operator behind an operand, by the levels of the operators on its two
sides. -/
def byLevel (p : Place) (level : Level) : Reach :=
  let tighter :=
    if level == Level.assignment || level == Level.comparison then level ≤ p.next
    else level < p.next
  if tighter || p.next == 0 then .takes else .returns

/-- What becomes of the operator behind an operand that holds together. -/
def atAtom (p : Place) (level : Level) : Reach :=
  if level == Level.range && (p.next == Level.assignment || p.next == Level.range) then .stops
  else if level == Level.binding && p.next < Level.binding then .stops
  else p.byLevel level

/-- Whether the beginning of an expression leaves the operator in front of it where it is. -/
def leavesFront (p : Place) (e : Expr) : Bool :=
  match e.bare with
  | .binary _ level _ _ =>
    if level == Level.assignment then p.previous ≤ level else p.previous < level
  | .cast _ _ => p.previous < Level.cast
  | .range _ _ _ | .rangeFrom _ => p.previous < Level.assignment
  | _ => true

/-- The level of an operand on the right, given how far it reaches. -/
def rightLevelWith (p : Place) (e : Expr) (reach : Unit → Reach) : Level :=
  let level := p.levelOf e
  let looser :=
    if p.previous == Level.assignment || p.previous == Level.binding || p.previous == Level.sign then
      level < p.previous
    else level ≤ p.previous
  let asks := (Level.range ≤ p.next && p.next < Level.binding) || !p.nextBegins
  if looser && asks && reach () != .takes && p.leavesFront e then Level.sign else level

end Place

namespace Expr

/-- What becomes of the operator behind an expression that stands behind an operator of a level. -/
def reach : Expr → Place → Level → Reach
  | .atom (.emptyJump _) _, p, level =>
    if p.next == Level.assignment && level > Level.assignment then .stops else .takes
  | .attributed _ e, p, level => if e.isOperation then p.atAtom level else reach e p level
  | .signed _ e, p, level =>
    let q := p.right Level.sign
    let within := fun l => if q.encloses e then q.byLevel l else reach e q l
    match within level with
    | .takes => .takes
    | .returns => p.byLevel level
    | .stops =>
      if q.rightLevelWith e (fun _ => within Level.sign) < Level.sign then p.byLevel level
      else if p.next == Level.atom then .stops else .returns
  | .binary o l _ e, p, level =>
    let q := p.right l
    let within := if q.encloses e then q.byLevel l else reach e q l
    if l == Level.comparison && p.next == Level.comparison then .takes
    else match within with
      | .takes => .takes
      | .returns => if o == "=" then .takes else p.byLevel level
      | .stops =>
        if l != Level.assignment && q.rightLevelWith e (fun _ => within) ≤ l then p.byLevel level
        else if p.next == Level.atom then .stops else .returns
  | .range _ _ e, p, _ => toFinish e p (reach e)
  | .rangeTo _ e, p, _ => toFinish e p (reach e)
  | .rangeFrom _, p, _ => if p.nextBegins then .takes else .stops
  | .rangeAll, p, _ => if p.nextBegins then .takes else .stops
  | .binding _ e, p, _ =>
    let q := p.right Level.binding
    let within := if q.encloses e then q.byLevel Level.binding else reach e q Level.binding
    match within with
    | .takes => .takes
    | _ =>
      if p.next < Level.binding then .returns
      else if q.rightLevelWith e (fun _ => within) < Level.binding || within != .stops then .takes
      else .returns
  | .jump kind _ e, p, _ =>
    if kind == .breaking false && e.startsWithLabel then .takes
    else toValue e (p.value kind) (reach e)
  | .closure _ _ e, p, _ => toValue e (p.right Level.jump) (reach e)
  | .atom _ _, p, level => p.atAtom level
  | .applied _ _, p, level => p.atAtom level
  | .dotted _ _, p, level => p.atAtom level
  | .cast _ _, p, level => p.atAtom level
where
  /-- The same for the end of a range, given the reach of the end. -/
  toFinish (e : Expr) (p : Place) (reach : Place → Level → Reach) : Reach :=
    let q := p.finish
    let within := if q.encloses e then q.byLevel Level.range else reach q Level.range
    let outside := match within with
      | .stops => true
      | .returns => p.next == Level.assignment || p.next == Level.range
      | .takes => false
    if outside && q.rightLevelWith e (fun _ => within) > Level.range then .stops else .takes
  /-- The same for a value that goes as far as it can, given its reach. -/
  toValue (e : Expr) (q : Place) (reach : Place → Level → Reach) : Reach :=
    match if q.encloses e then q.byLevel Level.jump else reach q Level.jump with
    | .stops => .returns
    | _ => .takes

end Expr

namespace Place

/-- The level of an operand on the right. -/
def rightLevel (p : Place) (e : Expr) : Level :=
  p.rightLevelWith e fun _ =>
    if p.encloses e then p.byLevel p.previous else e.reach p p.previous

/-- The level of an operand on the left. -/
def leftLevel (p : Place) (e : Expr) : Level :=
  let asks := !p.nextBegins || p.next == Level.range
  let reach := if p.encloses e then p.byLevel Level.jump else e.reach p Level.jump
  if asks && reach == .returns && p.leavesFront e then Level.atom else p.levelOf e

/-- An operand, given how its tokens depend on its place: in parentheses where it must not stand
without them. -/
def operand (p : Place) (e : Expr) (grouped : Bool) (tokens : Place → List Token) : List Token :=
  if grouped || p.encloses e then [.group .parenthesis (tokens alone)] else tokens p

end Place

/-! ## Tokens -/

/-- Whether an operator could as well begin an expression. -/
def operatorBegins (operator : String) : Bool :=
  ["-", "*", "&&", "||", "&", "|", "<<", "<"].contains operator

/-- Whether an operator could as well open a list of generic arguments. -/
def operatorOpens (operator : String) : Bool :=
  operator == "<<" || operator == "<"

namespace Expr

/-- The tokens of an expression at a place, without parentheses of its own. -/
def body : Expr → Place → List Token
  | .atom _ ts, _ => ts
  | .attributed attributes e, p =>
    attributes ++ (if e.isOperation then [.group .parenthesis (body e .alone)] else body e p)
  | .applied e ts, p =>
    let q := p.left Level.atom true false
    q.operand e (q.leftLevel e < Level.atom) (body e) ++ ts
  | .dotted e ts, p =>
    let q := p.leftOfDot
    q.operand e (q.leftLevel e < Level.atom) (body e) ++ ts
  | .signed operator e, p =>
    let q := p.right Level.sign
    operator ++ q.operand e (q.rightLevel e < Level.sign) (body e)
  | .cast e type, p =>
    let q := p.left Level.cast false false
    q.operand e (q.leftLevel e < Level.cast) (body e) ++ .word "as" :: type
  | .binary operator level left right, p =>
    let q := p.left level (operatorBegins operator) (operatorOpens operator)
    let found := q.leftLevel left
    let grouped :=
      if level == Level.assignment then found ≤ Level.range
      else if level == Level.comparison then found ≤ level
      else found < level
    let s := p.right level
    q.operand left grouped (body left) ++ Token.ofOperator operator.toList
      ++ s.operand right (level != Level.assignment && s.rightLevel right ≤ level) (body right)
  | .range start dots finish, p =>
    let q := p.left Level.range true false
    let s := p.finish
    q.operand start (q.leftLevel start ≤ Level.range) (body start) ++ Token.ofOperator dots.toList
      ++ s.operand finish (s.rightLevel finish ≤ Level.range) (body finish)
  | .rangeFrom start, p =>
    let q := p.left Level.range true false
    q.operand start (q.leftLevel start ≤ Level.range) (body start) ++ Token.ofOperator ['.', '.']
  | .rangeTo dots finish, p =>
    let s := p.finish
    Token.ofOperator dots.toList ++ s.operand finish (s.rightLevel finish ≤ Level.range) (body finish)
  | .rangeAll, _ => Token.ofOperator ['.', '.']
  | .binding head value, p =>
    let q := p.right Level.binding
    head ++ q.operand value (q.rightLevel value < Level.binding) (body value)
  | .jump kind head value, p =>
    head ++ (p.value kind).operand value (kind == .breaking false && value.startsWithLabel)
      (body value)
  | .closure head _ e, p => head ++ (p.right Level.jump).operand e false (body e)

/-- The tokens of an expression at a place. -/
def tokens (e : Expr) (p : Place) : List Token :=
  p.operand e false e.body

end Expr

end ObservableStore.Source
