import ObservableStore.Source.Grammar.Operators

/-!
# Expressions

An expression without binary operators is an atom with what follows it (calls, fields, indices),
behind signs. Where a block may follow an expression, as in a condition, a path is no struct
literal. The readers of whole expressions write nothing and give the expression; the readers of what
stands inside an atom write it.
-/

namespace ObservableStore.Source.Grammar

open Reader Ahead

/-- Whether an expression can begin here. -/
def isExpressionStart (ts : List Token) : Bool :=
  (isAnyWord ts && !isWord "as" ts) || isGroup .parenthesis ts || isGroup .bracket ts
    || isGroup .brace ts || isLiteral ts || isMacroMark ts
    || (isOp "-" ts && !isOp "-=" ts && !isOp "->" ts) || (isOp "*" ts && !isOp "*=" ts)
    || (isOp "|" ts && !isOp "|=" ts) || (isOp "&" ts && !isOp "&=" ts) || isOp ".." ts
    || (isOp "<" ts && !isOp "<=" ts && !isOp "<<=" ts) || isOp "::" ts || isLifetime ts
    || isOp "#" ts

/-! ## Blocks with a head -/

/-- A condition with its branches. -/
def conditional (r : Rules) : Reader Unit := do
  word "if"
  head r
  block r
  rounds do
    unless ← optWord "else" do return false
    if ← optWord "if" then
      head r
      block r
      return true
    block r
    return false

/-- A loop behind its label. -/
def loopBody (r : Rules) : Reader Unit := do
  if ← optWord "while" then
    head r
  else if ← optWord "for" then
    ignoring (alternatives r)
    word "in"
    head r
  else
    word "loop"
  attributedBlock r

/-- A loop or a block behind a label. -/
def labelled (r : Rules) : Reader Unit := do
  lifetime
  op ":"
  if ← ahead (isGroup .brace) then attributedBlock r else loopBody r

/-- An arm of a `match` with its comma, which may only be missing behind a block or at the end. -/
def arm (r : Rules) : Reader Unit := do
  ignoring (outerAttributes r)
  ignoring (alternatives r)
  if ← optWord "if" then expression r
  op "=>"
  let e ← r.leading
  write (e.tokens .ofArm)
  let last ← atEnd
  if e.needsComma && !last then op "," else ignoring (optOp ",")

/-- A `match` with its arms. -/
def matching (r : Rules) : Reader Unit := do
  word "match"
  head r
  inGroup .brace do
    innerAttributes r
    rounds do
      if ← atEnd then return false
      arm r
      return true

/-! ## Closures -/

/-- A pattern behind attributes. Tokens that are kept as they stood lose them, and a range gets
parentheses. -/
def attributedPattern (r : Rules) : Reader Unit := do
  let attributes ← tokensOf (ignoring (outerAttributes r))
  let (form, ts) ← captured r.pattern
  if ← ahead (isOp ":") then write (attributes ++ ts)
  else match form with
    | .plain => write (attributes ++ ts)
    | .verbatim => write ts
    | .range _ =>
      write (attributes ++ if attributes.isEmpty then ts else [.group .parenthesis ts])

/-- A parameter of a closure. -/
def closureParameter (r : Rules) : Reader Unit := do
  attributedPattern r
  if ← optOp ":" then ignoring (r.type true)

/-- A closure up to its result; whether the type of the result is named. -/
def closureHead (r : Rules) : Reader Bool := do
  if ← ahead (isWord "for") then binder r
  ignoring (optWord "const")
  ignoring (optWord "static")
  ignoring (optWord "async")
  ignoring (optWord "move")
  op "|"
  rounds do
    if ← ahead (isOp "|") then return false
    closureParameter r
    if ← ahead (isOp "|") then return false
    op ","
    return true
  op "|"
  let typed ← optOp "->"
  if typed then ignoring (r.type true)
  return typed

/-- A closure. Where it names the type of its result, a block follows. -/
def closure (r : Rules) (structs : Bool) : Reader Expr := do
  let (typed, head) ← captured (closureHead r)
  if typed then
    let ts ← tokensOf (block r)
    return .closure head true (.atom .block ts)
  let e ← operation r structs
  return .closure head false e

/-- Whether a closure can begin here. -/
def isClosureStart (ts : List Token) : Bool :=
  let next := skip ts
  isOp "|" ts || isWord "move" ts || (isWord "for" ts && isGenericList next)
    || (isWord "const" ts && !isGroup .brace next) || isWord "static" ts
    || (isWord "async" ts && (isOp "|" next || isWord "move" next))

/-! ## Paths, macro calls and struct literals -/

/-- A field of a struct literal. -/
def fieldValue (r : Rules) : Reader Unit := do
  ignoring (outerAttributes r)
  let named ← member
  if !named || (← ahead (isOp ":")) then
    op ":"
    expression r

/-- The fields of a struct literal; two dots and a value may stand last. -/
def fieldValues (r : Rules) : Reader Unit :=
  rounds do
    if ← atEnd then return false
    if ← optOp ".." then
      unless ← atEnd do expression r
      return false
    fieldValue r
    if ← atEnd then return false
    op ","
    return true

/-- An expression that begins with a path; what it is. -/
def pathAtom (r : Rules) (structs : Bool) : Reader Atom := do
  let p ← qualifiedPathOf r true
  if !p.qualified && p.plain && (← ahead isMacroMark) then
    let braces ← macroCall
    return .macroCall braces
  if structs && (← ahead (isGroup .brace)) then
    inGroup .brace (fieldValues r)
    return .structLiteral
  return .path

/-! ## Jumps -/

/-- Leaving a function, with a value or without. -/
def returning (r : Rules) : Reader Expr := do
  let head ← tokensOf (ignoring anyWord)
  if ← ahead isExpressionStart then
    let e ← operation r true
    return .jump .returning head e
  return .atom (.emptyJump false) head

/-- Leaving a loop, with a label and a value or without. -/
def breaking (r : Rules) (structs : Bool) : Reader Expr := do
  let (labelled, head) ← captured do
    word "break"
    let labelled ← ahead isLifetime
    if labelled then
      lifetime
      if ← ahead (isOp ":") then refuse
    return labelled
  if ← ahead (fun ts => isExpressionStart ts && (structs || !isGroup .brace ts)) then
    let e ← operation r true
    return .jump (.breaking labelled) head e
  return .atom (.emptyJump true) head

/-! ## Atoms -/

/-- An array: elements, or one element with a count. -/
def arrayElements (r : Rules) : Reader Unit := do
  if ← atEnd then return ()
  expression r
  if ← optOp ";" then
    expression r
  else
    unless ← atEnd do
      op ","
      ignoring (commaSeparated (expression r))

/-- The pattern and the value of a condition. -/
def binding (r : Rules) (structs : Bool) : Reader Expr := do
  let head ← tokensOf do
    word "let"
    ignoring (alternatives r)
    op "="
  let left ← r.unary structs
  let value ← r.climb structs Level.comparison left
  return .binding head value

/-- Whether an expression begins here that is a block with a head or a name. -/
def isBlockStart (ts : List Token) : Bool :=
  let next := skip ts
  isWord "if" ts || isWord "while" ts || isWord "for" ts || isWord "loop" ts || isWord "match" ts
    || (isWord "try" ts && isGroup .brace next) || isWord "unsafe" ts
    || (isWord "const" ts && isGroup .brace next) || isGroup .brace ts

/-- An expression that is a block, with its head. -/
def blockAtom (r : Rules) : Reader Atom := do
  if ← ahead (isGroup .brace) then
    attributedBlock r
    return .block
  if ← ahead (isWord "if") then conditional r
  else if ← ahead (isWord "match") then matching r
  else if ← optWord "try" then block r
  else if ← ahead (fun ts => isWord "unsafe" ts || isWord "const" ts) then
    ignoring anyWord
    attributedBlock r
  else loopBody r
  return .headed

/-- Whether an expression begins with a name or a path here. -/
def isPathExpression (ts : List Token) : Bool :=
  isPathStart ts || (isWord "try" ts && (isOp "!" (skip ts) || isOp "::" (skip ts)))

/-- An expression out of an atom's tokens. -/
def ofAtom (a : Reader Atom) : Reader Expr := do
  let (form, ts) ← captured a
  return .atom form ts

/-- An atom of which nothing matters. -/
def plainAtom (a : Reader Unit) : Reader Expr :=
  ofAtom do
    a
    return .plain

/-- Tokens that are not understood further, in place of an expression. -/
def verbatimAtom (a : Reader Unit) : Reader Expr :=
  ofAtom do
    verbatim a
    return .verbatim

/-- A range without a beginning. -/
def leadingRange (r : Rules) (structs : Bool) : Reader Expr := do
  match ← rangeFinish r structs with
  | (dots, some finish) => return .rangeTo dots finish
  | (_, none) => return .rangeAll

/-- An expression that nothing follows or precedes. -/
def atom (r : Rules) (structs : Bool) : Reader Expr := do
  if ← ahead isLiteral then plainAtom (ignoring literal)
  else if ← ahead (fun ts => isWord "async" ts && (isGroup .brace (skip ts)
      || (isWord "move" (skip ts) && isGroup .brace (skip (skip ts))))) then
    plainAtom do
      word "async"
      ignoring (optWord "move")
      block r
  else if ← ahead (fun ts => isWord "try" ts && isGroup .brace (skip ts)) then
    ofAtom (blockAtom r)
  else if ← ahead isClosureStart then closure r structs
  else if ← ahead isBuiltin then verbatimAtom builtin
  else if ← ahead isPathExpression then ofAtom (pathAtom r structs)
  else if ← ahead (isGroup .parenthesis) then
    plainAtom (ignoring (inGroup .parenthesis (commaSeparated (expression r))))
  else if ← ahead (isWord "break") then breaking r structs
  else if ← ahead (isWord "continue") then
    plainAtom do
      word "continue"
      if ← ahead isLifetime then lifetime
  else if ← ahead (isWord "return") then returning r
  else if ← ahead (isWord "become") then
    verbatimAtom do
      word "become"
      expression r
  else if ← ahead (isGroup .bracket) then plainAtom (inGroup .bracket (arrayElements r))
  else if ← ahead (isWord "let") then binding r structs
  else if ← ahead (isWord "yield") then returning r
  else if ← ahead isBlockStart then ofAtom (blockAtom r)
  else if ← ahead (isOp "..") then leadingRange r structs
  else if ← ahead (isWord "_") then plainAtom (word "_")
  else
    ofAtom do
      labelled r
      return .labelled

/-! ## What follows an atom -/

/-- The fields of a text of numbers with dots between them, each behind its dot, and whether a dot
stands last, which is the one in front of the next field. -/
def fieldIndices (s : String) : Option (List Token × Bool) := do
  let parts := s.splitOn "."
  let trailing := parts.getLast? == some ""
  let fields ← (if trailing then parts.dropLast else parts).mapM index
  let dotted := fields.flatMap fun t => [.punct '.' false, t]
  return (if trailing then dotted ++ [.punct '.' false] else dotted, trailing)

/-- The arguments of a method, behind its generic arguments if it has some. -/
def methodArguments (r : Rules) : Reader Unit := do
  if ← ahead (isOp "::") then
    op "::"
    ignoring (angleArguments r)
    ignoring (inGroup .parenthesis (commaSeparated (expression r)))
  else if ← ahead (isGroup .parenthesis) then
    ignoring (inGroup .parenthesis (commaSeparated (expression r)))

/-- A field or a method behind its dot. -/
def afterDot (r : Rules) : Reader Unit := do
  if ← optWord "await" then return ()
  let named ← member
  if named then methodArguments r

/-- A field or a method. Several indices with dots between them may be one number. -/
def dotTrailer (r : Rules) : Reader Unit := do
  let next ← fun c => some (match skip c.rest with | .literal s :: _ => s | _ => "", c)
  if isFractionText next then
    unwritten do
      op "."
      ignoring literal
    match fieldIndices next with
    | none => refuse
    | some (ts, trailing) =>
      write ts
      if trailing then afterDot r
  else
    op "."
    afterDot r

/-- Calls, fields, methods, indices and error exits behind an expression. -/
def trailers (r : Rules) (e : Expr) : Reader Expr :=
  iterate (fun e => do
    if ← ahead (isGroup .parenthesis) then
      let ts ← tokensOf (ignoring (inGroup .parenthesis (commaSeparated (expression r))))
      return some (.applied e ts)
    if !e.isRange && (← ahead isDot) then
      let ts ← tokensOf (dotTrailer r)
      return some (.dotted e ts)
    if ← ahead (isGroup .bracket) then
      let ts ← tokensOf (inGroup .bracket (expression r))
      return some (.applied e ts)
    if !e.isRange && (← ahead (isOp "?")) then
      let ts ← tokensOf (op "?")
      return some (.dotted e ts)
    return none) e

/-! ## Signs and attributes -/

/-- A sign in front of an operand. -/
def sign : Reader Unit := do
  if ← optOp "&" then
    let raw ← ahead fun ts =>
      isWord "raw" ts && (isWord "mut" (skip ts) || isWord "const" (skip ts))
    if raw then word "raw"
    let mutable ← optWord "mut"
    if raw && !mutable then word "const"
  else
    unless ← optOp "*" do
      unless ← optOp "!" do op "-"

/-- An atom with what follows it, behind attributes. -/
def attributedTrailers (r : Rules) (structs : Bool) (attributes : List Token) : Reader Expr := do
  let a ← atom r structs
  let e ← trailers r a
  if e.isRange && !attributes.isEmpty then refuse
  return e.withAttributes attributes

/-- An expression without binary operators. -/
def unary (r : Rules) (structs : Bool) : Reader Expr := do
  let (e, stood) ← consumed do
    let attributes ← tokensOf (ignoring (outerAttributes r))
    if ← ahead (fun ts => isOp "&" ts || isOp "*" ts || isOp "!" ts || isOp "-" ts) then
      let s ← tokensOf sign
      let e ← r.unary structs
      return (Expr.signed s e).withAttributes attributes
    attributedTrailers r structs attributes
  return if e.isVerbatim then .atom .verbatim stood else e

/-- An expression at the beginning of a statement or an arm: where it begins with a block, the block
ends it, unless a dot or a question mark follows. -/
def leading (r : Rules) : Reader Expr := do
  let attributes ← tokensOf (ignoring (outerAttributes r))
  let isLabelled ← ahead isLifetime
  let starts ← ahead fun ts => isBlockStart ts && !(isWord "for" ts && isGenericList (skip ts))
  if isLabelled || starts then
    let e ← ofAtom (if isLabelled then do labelled r; return .labelled else blockAtom r)
    if ← ahead (fun ts => isDot ts || isOp "?" ts) then
      let e ← trailers r e
      r.climb true Level.jump (e.withAttributes attributes)
    else return e.withAttributes attributes
  else
    let e ← r.unary true
    r.climb true Level.jump (e.withAttributes attributes)

end ObservableStore.Source.Grammar
