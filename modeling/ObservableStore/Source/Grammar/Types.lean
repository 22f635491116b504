import ObservableStore.Source.Grammar.Paths

/-!
# Types

A path is read first and taken for a bound when a plus sign follows it, where sums of bounds are
allowed; so is what stands in parentheses.
-/

namespace ObservableStore.Source.Grammar

open Reader Ahead

/-- The kinds of bounds in the type of a trait object. -/
def objectKinds : BoundKinds := ⟨false, false⟩

/-- A trait object, with or without `dyn`. One behind `dyn*` is not understood further. -/
def traitObject (r : Rules) (plus : Bool) : Reader TypeExpr :=
  verbatimIf do
    let marked ← optWord "dyn"
    let star ← if marked then optOp "*" else pure false
    boundsOf (boundOf r objectKinds) plus
    return (.other (if star then .undeclared else .bounds), star)

/-- The bounds behind a bound that has been read, each behind a plus sign. -/
def sumOfBounds (r : Rules) : Reader TypeExpr := do
  rounds do
    if ← optOp "+" then
      ignoring (boundOf r objectKinds)
      return true
    return false
  return .other .bounds

/-! ## Function pointers -/

/-- The name of a calling convention, with `extern`. -/
def convention : Reader Unit := do
  word "extern"
  if ← ahead isString then ignoring literal

/-- The type behind an arrow, if there is one. -/
def result (r : Rules) (plus : Bool) : Reader Unit := do
  if ← optOp "->" then ignoring (r.type plus)

/-- Whether `self` that can be changed is next. -/
def isMutableSelf (ts : List Token) : Bool :=
  isWord "mut" ts && isWord "self" (skip ts)

/-- A parameter of a function pointer. The first one may be `self`, and one that can be changed is
not understood further. -/
def pointerParameter (r : Rules) (first : Bool) : Reader Unit :=
  verbatimIf do
    let mutableSelf ← ahead (fun ts => first && isMutableSelf ts)
    if mutableSelf then word "mut"
    let named ← ahead fun ts =>
      (isName ts || isWord "_" ts || (first && isWord "self" ts)) && isColon (skip ts)
    let isSelf ← ahead (fun ts => named && isWord "self" ts)
    if named then
      ignoring anyWord
      op ":"
    if first && !isSelf && (← ahead isMutableSelf) then
      word "mut"
      word "self"
      return ((), true)
    if mutableSelf && !named then word "self" else ignoring (r.type true)
    return ((), mutableSelf)

/-- The dots that stand for any further parameters. -/
def furtherParameters : Reader Unit := do
  if ← ahead (fun ts => isName ts || isWord "_" ts) then
    ignoring anyWord
    op ":"
  op "..."
  ignoring (optOp ",")

/-- Whether dots for further parameters are next. -/
def isFurther (ts : List Token) : Bool :=
  isOp "..." ts
    || ((isName ts || isWord "_" ts) && isOp ":" (skip ts) && isOp "..." (skip (skip ts)))

/-- The parameters of a function pointer. -/
def pointerParameters (r : Rules) : Reader Unit := do
  ignoring (iterate (fun first => do
    if ← atEnd then return none
    ignoring (outerAttributes r)
    if ← ahead isFurther then
      furtherParameters
      return none
    pointerParameter r first
    if ← atEnd then return none
    op ","
    return some false) true)

/-- A function pointer. -/
def functionPointer (r : Rules) : Reader TypeExpr := do
  ignoring (optWord "unsafe")
  if ← ahead (isWord "extern") then convention
  word "fn"
  inGroup .parenthesis (pointerParameters r)
  result r false
  return .other .function

/-! ## Types in parentheses -/

/-- The types of a tuple behind the first one. -/
def tupleRest (r : Rules) : Reader Unit := do
  op ","
  ignoring (commaSeparated (r.type true))

/-- What stands in parentheses. -/
inductive Enclosed where
  /-- A whole type. -/
  | type (t : TypeExpr)
  /-- A bound with a question mark, to which others may be added. -/
  | bound
  /-- A type that can be a bound when others are added. -/
  | boundOrType (t : TypeExpr)

/-- Whether what is left is one bound that is not introduced by a keyword. One in parentheses is
alone when nothing follows them. -/
def isLoneBound (r : Rules) (c : Cursor) : Bool :=
  if isGroup .parenthesis c.rest then c.rest.length == 1
  else !isWord "dyn" c.rest && !isWord "impl" c.rest
    && match r.type false c with
      | some (_, c') => c'.rest.isEmpty
      | none => false

/-- The content of parentheses. -/
def enclosed (r : Rules) : Reader Enclosed := do
  if ← atEnd then return .type (.other .tuple)
  if ← ahead isLifetime then
    let t ← traitObject r true
    return .type (.paren t)
  if ← ahead (isOp "?") then
    ignoring (traitBound r false)
    return .bound
  let begin ← fun c => some (c, c)
  let t ← r.type true
  if ← ahead (isOp ",") then
    tupleRest r
    return .type (.other .tuple)
  match t with
  | .itself => return .boundOrType (.paren t)
  | .path _ _ => return .boundOrType (.paren t)
  | .other .bounds =>
    return if isLoneBound r begin then .boundOrType (.paren t) else .type (.paren t)
  | _ => return .type (.paren t)

/-- A type that begins with parentheses. -/
def parenthesized (r : Rules) (plus : Bool) : Reader TypeExpr := do
  match ← inGroup .parenthesis (enclosed r) with
  | .bound => sumOfBounds r
  | .type t => return t
  | .boundOrType t =>
    if plus && (← ahead (isOp "+")) then sumOfBounds r else return t

/-! ## Types that begin with a path -/

/-- A type that begins with a path. Behind lifetimes that are `bound` it is a trait. -/
def pathType (r : Rules) (plus bound : Bool) : Reader TypeExpr := do
  let p ← qualifiedPathOf r false
  if p.qualified then return .other .qualified
  if p.plain && (← ahead isMacroMark) then
    ignoring macroCall
    return .other .undeclared
  let sum := plus && (← ahead (isOp "+"))
  if bound || sum then
    if plus then ignoring (moreBounds (boundOf r objectKinds) true)
    return .other .bounds
  if p.path.isName "Self" && !p.bracketed then return .itself
  return .path p.path p.arguments

/-! ## All types -/

/-- A type in brackets: a slice, or an array with its length. -/
def bracketed (r : Rules) : Reader TypeExpr := do
  inGroup .bracket do
    ignoring (r.type true)
    if ← optOp ";" then expression r
  return .other .sequence

/-- A raw pointer. -/
def rawPointer (r : Rules) : Reader TypeExpr := do
  op "*"
  unless ← optWord "const" do word "mut"
  ignoring (r.type false)
  return .other .undeclared

/-- A reference. -/
def reference (r : Rules) : Reader TypeExpr := do
  op "&"
  if ← ahead isLifetime then lifetime
  ignoring (optWord "mut")
  ignoring (r.type false)
  return .other .reference

/-- An opaque type. -/
def opaqueType (r : Rules) (plus : Bool) : Reader TypeExpr := do
  word "impl"
  boundsOf (boundOf r ⟨true, true⟩) plus
  return .other .bounds

/-- Whether a function pointer can begin here. -/
def isPointerStart (ts : List Token) : Bool :=
  isWord "fn" ts || isWord "unsafe" ts || isWord "extern" ts

/-- A construct of the compiler's own in place of a type. -/
def builtinType : Reader TypeExpr := do
  verbatim builtin
  return .other .undeclared

/-- A type; whether it may be a sum of bounds. -/
def type (r : Rules) (plus : Bool) : Reader TypeExpr := do
  let bound ← ahead (isWord "for")
  if bound then
    binder r
    require (fun ts => isPathName ts || isPointerStart ts)
  if ← ahead (isGroup .parenthesis) then parenthesized r plus
  else if ← ahead isPointerStart then functionPointer r
  else if ← ahead isBuiltin then builtinType
  else if ← ahead isPathStart then pathType r plus bound
  else if ← ahead (isWord "dyn") then traitObject r plus
  else if ← ahead (isGroup .bracket) then bracketed r
  else if ← ahead (isOp "*") then rawPointer r
  else if ← ahead (isOp "&") then reference r
  else if ← ahead (isOp "!") then
    op "!"
    return .other .undeclared
  else if ← ahead (isWord "impl") then opaqueType r plus
  else if ← ahead (isWord "_") then
    ignoring anyWord
    return .other .undeclared
  else
    require isLifetime
    traitObject r true

end ObservableStore.Source.Grammar
