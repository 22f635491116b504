import ObservableStore.Source.Expression.Written
import ObservableStore.Source.Item
import ObservableStore.Source.Reader

/-!
# The readers that the grammar is built from

The grammar's rules refer to each other: types hold expressions, expressions hold types, patterns,
statements and items. The rules are therefore written against a record of the readers that they
share (`Rules`), and the record is closed at the end by a bound on nesting. Every rule that
goes back to the record has read a token before, or is one of a few that only choose among other
rules, so a bound in proportion to the number of tokens is never reached.
-/

namespace ObservableStore.Source

/-- What matters of a pattern that has been read. -/
inductive PatternForm where
  | plain
  /-- A range; whether it lacks a bound. -/
  | range (isOpen : Bool)
  /-- Tokens that are written out again as they stood. -/
  | verbatim
deriving DecidableEq, Repr

/-- The readers that the rules of the grammar share. Those of expressions write nothing: what is
written of an expression depends on where it stands. -/
structure Rules where
  /-- A type; whether it may be a sum of bounds. -/
  type : Bool → Reader TypeExpr
  /-- A generic argument. -/
  argument : Reader Argument
  /-- A generic parameter with its attributes, and whether it is a lifetime; whether it may be an
  underscore. -/
  parameter : Bool → Reader Bool
  /-- An expression without binary operators; whether it may be a struct literal. -/
  unary : Bool → Reader Expr
  /-- The binary operators behind an expression that bind at least as tightly as a level. -/
  climb : Bool → Level → Expr → Reader Expr
  /-- An expression at the beginning of a statement, which a block at its own beginning ends. -/
  leading : Reader Expr
  /-- A pattern without alternatives. -/
  pattern : Reader PatternForm
  /-- The statements of a block, to its end. -/
  statements : Reader Unit
  /-- An item behind its visibility and attributes, with them. -/
  item : Reader Item
  /-- The tree of an import, or nothing when a part of it begins at the crate root; whether it
  may. -/
  useTree : Bool → Reader (Option UseTree)

/-- Rules that read nothing. -/
def Rules.refusing : Rules where
  type _ := Reader.refuse
  argument := Reader.refuse
  parameter _ := Reader.refuse
  unary _ := Reader.refuse
  climb _ _ _ := Reader.refuse
  leading := Reader.refuse
  pattern := Reader.refuse
  statements := Reader.refuse
  item := Reader.refuse
  useTree _ := Reader.refuse

namespace Ahead

/-- Whether a path of names can begin here. -/
def isPathName (ts : List Token) : Bool :=
  isName ts || isWord "super" ts || isWord "self" ts || isWord "Self" ts || isWord "crate" ts

/-- Whether a path that may begin with `::` or `<` can begin here. -/
def isPathStart (ts : List Token) : Bool :=
  isPathName ts || isOp "::" ts || isOp "<" ts

/-- Whether a call of a macro can begin here, in place of an item. -/
def isMacroStart (ts : List Token) : Bool :=
  isName ts || isPathWord ts || isOp "::" ts

/-- Whether an exclamation mark of a macro call is next. -/
def isMacroMark (ts : List Token) : Bool :=
  isOp "!" ts && !isOp "!=" ts

/-- Whether a single colon is next. -/
def isColon (ts : List Token) : Bool :=
  isOp ":" ts && !isOp "::" ts

/-- Whether angle brackets hold generic parameters and do not begin a path. -/
def isGenericList (ts : List Token) : Bool :=
  let next := skip ts
  let third := skip next
  isOp "<" ts
    && (isOp ">" next || isOp "#" next || isWord "const" next
      || ((isLifetime next || isName next)
        && (isColon third || isOp "," third || isOp ">" third || isOp "=" third)))

/-- Whether a construct of the compiler's own is next. -/
def isBuiltin (ts : List Token) : Bool :=
  isWord "builtin" ts && isOp "#" (skip ts)

/-- Whether a single dot is next. -/
def isDot (ts : List Token) : Bool :=
  isOp "." ts && !isOp ".." ts

end Ahead

namespace Grammar

open Reader Ahead

/-- A reader whose result is not needed. -/
def ignoring {α : Type} (a : Reader α) : Reader Unit := do
  let _ ← a

/-- An expression, not written yet; whether it may be a struct literal. -/
def operation (r : Rules) (structs : Bool) : Reader Expr := do
  let left ← r.unary structs
  r.climb structs Level.jump left

/-- An expression between delimiters. -/
def expression (r : Rules) : Reader Unit := do
  let e ← operation r true
  write (e.tokens .alone)

/-- An expression that a block follows. -/
def head (r : Rules) : Reader Unit := do
  let e ← operation r false
  write (e.tokens .ofCondition)

/-- A list of names with `::` between them, with or without `::` in front, and no arguments. -/
def plainPath : Reader Path := do
  let rooted ← optOp "::"
  let (names, wantsMore) ← iterate (fun (names, wantsMore) => do
      if wantsMore && (← ahead isPathName) then
        let n ← anyWord
        let wantsMore ← optOp "::"
        return some (n :: names, wantsMore)
      return none) (([] : List String), true)
  if wantsMore then refuse else return ⟨rooted, names.reverse⟩

/-- A construct of the compiler's own. -/
def builtin : Reader Unit := do
  word "builtin"
  op "#"
  ignoring name
  rawGroup .parenthesis

end Grammar

end ObservableStore.Source
