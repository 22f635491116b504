import ObservableStore.Token.Basic

/-!
# Expressions

Of an expression its operators are kept, with what they bind, because they decide where parentheses
are needed when it is written out again (`ObservableStore.Source.Expression.Written`). What stands
between delimiters, and everything else that an expression is made of, is kept as tokens.

Operators bind in levels: one of a higher level binds its operands more tightly.
-/

namespace ObservableStore.Source

/-- How tightly an operator binds. -/
abbrev Level := Nat

namespace Level

/-- Leaving a loop or a function with a value, and closures. -/
def jump : Level := 0

/-- Assignments. -/
def assignment : Level := 1

/-- Ranges. -/
def range : Level := 2

/-- A binding in a condition. -/
def binding : Level := 5

/-- Comparisons. -/
def comparison : Level := 6

/-- Casts. -/
def cast : Level := 13

/-- Operators in front of their operand. -/
def sign : Level := 14

/-- Expressions that hold together without an operator. -/
def atom : Level := 15

end Level

/-- What matters of an expression that is kept as tokens. -/
inductive Atom where
  | plain
  | path
  | structLiteral
  /-- A block without a head or a label. -/
  | block
  /-- A block with a head, as of a condition or a loop. -/
  | headed
  /-- A loop or a block behind a label. -/
  | labelled
  | macroCall (braces : Bool)
  /-- A jump without a value; whether it leaves a loop. -/
  | emptyJump (breaks : Bool)
  /-- Tokens that are written out again as they stood. -/
  | verbatim
deriving DecidableEq, Repr

/-- What a jump leaves. -/
inductive Jump where
  /-- A loop or a labelled block; whether its label is named. -/
  | breaking (labelled : Bool)
  /-- A function. -/
  | returning
deriving DecidableEq, Repr

/-- An expression. -/
inductive Expr where
  | atom (form : Atom) (tokens : List Token)
  /-- An expression behind its attributes. -/
  | attributed (attributes : List Token) (e : Expr)
  /-- A call or an index: what stands behind the operand is one group. -/
  | applied (operand : Expr) (group : List Token)
  /-- A field, a method or an error exit, with all that stands behind the operand. -/
  | dotted (operand : Expr) (trailer : List Token)
  | signed (operator : List Token) (operand : Expr)
  | cast (operand : Expr) (type : List Token)
  | binary (operator : String) (level : Level) (left right : Expr)
  | range (start : Expr) (dots : String) (finish : Expr)
  | rangeFrom (start : Expr)
  | rangeTo (dots : String) (finish : Expr)
  | rangeAll
  /-- A pattern and the value it is matched with, behind `let`. -/
  | binding (head : List Token) (value : Expr)
  | jump (kind : Jump) (head : List Token) (value : Expr)
  /-- A closure; whether it names the type of its result. -/
  | closure (head : List Token) (typed : Bool) (body : Expr)
deriving Repr

instance : Inhabited Expr := ⟨.atom .plain []⟩

namespace Expr

/-- The expression behind its attributes. -/
def bare : Expr → Expr
  | .attributed _ e => e
  | e => e

/-- Whether the tokens are written out again as they stood. -/
def isVerbatim : Expr → Bool
  | .atom .verbatim _ => true
  | _ => false

/-- Puts attributes in front of those that are there. Tokens that are kept as they stood take
none. -/
def withAttributes (attributes : List Token) (e : Expr) : Expr :=
  if attributes.isEmpty || e.isVerbatim then e
  else match e with
    | .attributed more inner => .attributed (attributes ++ more) inner
    | e => .attributed attributes e

/-- Puts attributes in front of the first operand. -/
def withAttributesFirst (attributes : List Token) : Expr → Expr
  | .binary o level left right => .binary o level (withAttributesFirst attributes left) right
  | .cast operand type => .cast (withAttributesFirst attributes operand) type
  | e => e.withAttributes attributes

/-- Whether the expression is a range, which is no operand on the left. -/
def isRange (e : Expr) : Bool :=
  match e.bare with
  | .range _ _ _ | .rangeFrom _ | .rangeTo _ _ | .rangeAll => true
  | _ => false

/-- Whether the expression is a comparison, which is not compared again. -/
def isComparison : Expr → Bool
  | .binary _ level _ _ => level == Level.comparison
  | _ => false

/-- Whether the expression needs a comma to be an arm before another one: all do but those that are
a block with its head. -/
def needsComma (e : Expr) : Bool :=
  match e.bare with
  | .atom .block _ | .atom .headed _ | .atom .labelled _ => false
  | _ => true

/-- Whether the expression needs a semicolon to be a statement before another one. -/
def needsSemicolon (e : Expr) : Bool :=
  match e.bare with
  | .atom (.macroCall true) _ => false
  | _ => e.needsComma

/-- Whether the expression begins with a label. -/
def startsWithLabel : Expr → Bool
  | .atom form _ => form == .labelled
  | .attributed _ e => startsWithLabel e
  | .applied e _ => startsWithLabel e
  | .dotted e _ => startsWithLabel e
  | .cast e _ => startsWithLabel e
  | .binary _ _ e _ => startsWithLabel e
  | .range e _ _ => startsWithLabel e
  | .rangeFrom e => startsWithLabel e
  | _ => false

/-- The level of what the expression is made with. Attributes are written like an operator in front
of what would hold together without one. -/
def level : Expr → Level
  | .atom _ _ | .applied _ _ | .dotted _ _ => Level.atom
  | .attributed _ (.atom (.emptyJump _) _) => Level.atom
  | .attributed _ e => min (level e) Level.sign
  | .signed _ _ => Level.sign
  | .cast _ _ => Level.cast
  | .binary _ l _ _ => l
  | .range _ _ _ | .rangeFrom _ | .rangeTo _ _ | .rangeAll => Level.range
  | .binding _ _ => Level.binding
  | .jump _ _ _ => Level.jump
  | .closure _ typed _ => if typed then Level.atom else Level.jump

end Expr

end ObservableStore.Source
