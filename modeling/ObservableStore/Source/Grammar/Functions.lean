import ObservableStore.Source.Grammar.Expressions
import ObservableStore.Source.Grammar.Generics

/-!
# Function signatures
-/

namespace ObservableStore.Source.Grammar

open Reader Ahead

/-- Whether a function is next, behind its visibility. It may be marked as safe where `safe` says
so. -/
def isSignature (safe : Bool) (ts : List Token) : Bool :=
  let ts := if isWord "const" ts then skip ts else ts
  let ts := if isWord "async" ts then skip ts else ts
  let ts := if isWord "unsafe" ts || (safe && isWord "safe" ts) then skip ts else ts
  let ts :=
    if isWord "extern" ts then if isString (skip ts) then skip (skip ts) else skip ts else ts
  isWord "fn" ts

/-- The parameter `self` with its modifiers; whether it is taken by reference. -/
def receiverName : Reader Bool := do
  let byRef ← optOp "&"
  if byRef && (← ahead isLifetime) then lifetime
  ignoring (optWord "mut")
  word "self"
  require (fun ts => !isOp "::" ts)
  return byRef

/-- The parameter `self` with its modifiers and its type. -/
def receiver (r : Rules) : Reader Unit := do
  let byRef ← receiverName
  unless byRef do
    if ← optOp ":" then ignoring (r.type true)

/-- What a parameter of a function is. -/
inductive ParameterForm where
  | receiver
  | typed
  /-- Dots that stand for any further parameters. -/
  | further
deriving DecidableEq

/-- A parameter of a function. A type with arguments may stand without a name, which is written as an
underscore. -/
def functionParameter (r : Rules) : Reader ParameterForm := do
  if (← tryAhead receiverName).isSome then
    receiver r
    return .receiver
  if ← ahead (fun ts => isName ts && isOp "<" (skip ts)) then
    write [.word "_", .punct ':' false]
    ignoring (r.type true)
    return .typed
  ignoring r.pattern
  op ":"
  if ← optOp "..." then return .further
  ignoring (r.type true)
  return .typed

/-- The parameters of a function. Only the first one may be `self`. -/
def functionParameters (r : Rules) : Reader Unit :=
  ignoring (iterate (fun first => do
    if ← atEnd then return none
    ignoring (outerAttributes r)
    let form ← if ← optOp "..." then pure .further else functionParameter r
    if form == .further then
      unless ← atEnd do op ","
      return none
    if form == .receiver && !first then refuse
    if ← atEnd then return none
    op ","
    return some false) true)

/-- A signature; whether it is marked as safe. It may be where `safe` says so. -/
def signature (r : Rules) (safe : Bool) : Reader Bool := do
  ignoring (optWord "const")
  ignoring (optWord "async")
  let isUnsafe ← optWord "unsafe"
  let isSafe ← if safe && !isUnsafe then optWord "safe" else pure false
  if ← ahead (isWord "extern") then convention
  word "fn"
  ignoring name
  ignoring (generics r)
  inGroup .parenthesis (functionParameters r)
  result r true
  ignoring (whereClause r)
  return isSafe

end ObservableStore.Source.Grammar
