import ObservableStore.Source.Grammar.Expressions

/-!
# Statements

A statement is an item, a binding, a macro call in braces, or an expression. A statement before
another one ends in a semicolon, unless it is or ends in a block.
-/

namespace ObservableStore.Source.Grammar

open Reader Ahead

/-- Whether an item is next, where it could be an expression as well. -/
def isItemStart (ts : List Token) : Bool :=
  let next := skip ts
  let third := skip next
  isWord "pub" ts || (isWord "crate" ts && !isOp "::" next) || isWord "extern" ts
    || isWord "use" ts
    || (isWord "static" ts && (isWord "mut" next || isName next))
    || (isWord "const" ts
      && !(isGroup .brace next || isWord "static" next
        || (isWord "async" next
          && !(isWord "unsafe" third || isWord "extern" third || isWord "fn" third))
        || isWord "move" next || isOp "|" next))
    || (isWord "unsafe" ts && !isGroup .brace next)
    || (isWord "async" ts && (isWord "unsafe" next || isWord "extern" next || isWord "fn" next))
    || isWord "fn" ts || isWord "mod" ts || isWord "type" ts || isWord "struct" ts
    || isWord "enum" ts || (isWord "union" ts && isName next)
    || (isWord "auto" ts && isWord "trait" next) || isWord "trait" ts
    || (isWord "default" ts && (isWord "unsafe" next || isWord "impl" next))
    || isWord "impl" ts || isWord "macro" ts

/-- What a path with an exclamation mark begins. -/
inductive MacroStatement where
  /-- A macro that gets a name, which is an item. -/
  | item
  /-- A call in braces that nothing continues. -/
  | statement
  /-- No macro call, or one that is a part of an expression. -/
  | other
deriving DecidableEq

/-- What a path with an exclamation mark begins here. -/
def macroStatement : Reader MacroStatement := do
  ignoring plainPath
  require (isOp "!")
  let named ← ahead fun ts => isName (skip ts) || isWord "try" (skip ts)
  if named then return .item
  let braces ← ahead fun ts =>
    isGroup .brace (skip ts) && !(isDot (skip (skip ts)) || isOp "?" (skip (skip ts)))
  return if braces then .statement else .other

/-- Whether tokens end in braces. -/
def endsInBraces (ts : List Token) : Bool :=
  match ts.getLast? with
  | some (.group .brace _) => true
  | _ => false

/-- A binding, which may hold a block for the case that the pattern does not match. -/
def localBinding (r : Rules) : Reader Unit := do
  word "let"
  ignoring r.pattern
  if ← optOp ":" then ignoring (r.type true)
  if ← optOp "=" then
    let (_, stood) ← consumed (expression r)
    if !endsInBraces stood && (← ahead (isWord "else")) then
      word "else"
      block r
  op ";"

/-- An expression as a statement, behind its attributes; whether another statement may follow
without a semicolon. -/
def expressionStatement (r : Rules) (attributes : List Token) : Reader Bool := do
  let e ← r.leading
  write ((e.withAttributesFirst attributes).tokens .ofStatement)
  let closed ← optOp ";"
  return closed || !e.needsSemicolon

/-- A statement; whether another one may follow without a semicolon. -/
def statement (r : Rules) : Reader Bool := do
  let begin ← fun c => some (c, c)
  let attributes ← tokensOf (ignoring (outerAttributes r))
  let macroForm := (← tryAhead macroStatement).getD .other
  if macroForm = .statement then
    write attributes
    ignoring plainPath
    ignoring macroCall
    ignoring (optOp ";")
    return true
  if ← ahead (isWord "let") then
    write attributes
    localBinding r
    return true
  if macroForm = .item || (← ahead isItemStart) then
    fun _ => (do ignoring r.item; return true : Reader Bool) begin
  else expressionStatement r attributes

/-- The statements of a block, to its end. -/
def statements (r : Rules) : Reader Unit :=
  rounds do
    rounds (optOp ";")
    if ← atEnd then return false
    let complete ← statement r
    if ← atEnd then return false
    if complete then return true else refuse

end ObservableStore.Source.Grammar
