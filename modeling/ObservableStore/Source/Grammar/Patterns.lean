import ObservableStore.Source.Grammar.Types

/-!
# Patterns

Ranges of patterns may lack a bound, which slices of patterns do not accept without parentheses.
Three dots of a range are written as two and an equals sign, and the index of a field as a plain
number.
-/

namespace ObservableStore.Source.Grammar

open Reader Ahead

/-! ## Fields -/

/-- Whether a literal's text is a number with a fraction or an exponent. -/
def isFractionText (s : String) : Bool :=
  let cs := s.toList
  let based := match cs with
    | '0' :: c :: _ => c == 'x' || c == 'o' || c == 'b'
    | _ => false
  let tail := cs.dropWhile (fun c => c.isDigit || c == '_')
  let exponent := match tail with
    | e :: rest =>
      (e == 'e' || e == 'E') &&
        match rest.dropWhile (· == '_') with
        | c :: _ => c == '+' || c == '-' || c.isDigit
        | [] => false
    | [] => false
  isNumberText s && !based && (tail.head? == some '.' || exponent)

/-- The value of a digit in any base. -/
def digitValue? (c : Char) : Option Nat :=
  if '0' ≤ c ∧ c ≤ '9' then some (c.toNat - '0'.toNat)
  else if 'a' ≤ c ∧ c ≤ 'f' then some (c.toNat - 'a'.toNat + 10)
  else if 'A' ≤ c ∧ c ≤ 'F' then some (c.toNat - 'A'.toNat + 10)
  else none

/-- The number that digits of a base stand for, underscores aside; there must be a digit. -/
def digitsValue? (base : Nat) (cs : List Char) : Option Nat :=
  let digits := cs.filter (· ≠ '_')
  if digits.isEmpty then none
  else digits.foldl (fun value c =>
    match value, digitValue? c with
    | some n, some d => if d < base then some (base * n + d) else none
    | _, _ => none) (some 0)

/-- The index of a field that a text stands for: a number below 2^32 without a suffix, in any
base. -/
def index? (s : String) : Option Nat :=
  let value := match s.toList with
    | '0' :: 'x' :: cs => digitsValue? 16 cs
    | '0' :: 'o' :: cs => digitsValue? 8 cs
    | '0' :: 'b' :: cs => digitsValue? 2 cs
    | '_' :: _ => none
    | cs => digitsValue? 10 cs
  value.filter (· < 0x100000000)

/-- The index of a field, as the plain number that it is written as. -/
def index (s : String) : Option Token :=
  (index? s).map fun n => .literal (toString n)

/-- The name or index of a field; whether it is a name. -/
def member : Reader Bool := do
  if ← ahead isName then
    ignoring name
    return true
  require (fun ts => match ts with | .literal _ :: _ => true | _ => false)
  let s ← unwritten literal
  match index s with
  | some t =>
    write [t]
    return false
  | none => refuse

/-! ## Ranges -/

/-- The dots of a range that stands for a pattern; whether its end is included. -/
def patternDots : Reader Bool := do
  if ← optOp "..=" then return true
  if ← unwritten (optOp "...") then
    write (Token.ofOperator ['.', '.', '='])
    return true
  op ".."
  return false

/-- The dots of a range; whether its end is included. -/
def dots : Reader Bool := do
  if ← optOp "..=" then return true
  require (fun ts => !isOp "..." ts)
  op ".."
  return false

/-- Whether a bound of a range is missing here. -/
def lacksBound (ts : List Token) : Bool :=
  ts.isEmpty || isOp "|" ts || isOp "=" ts || isColon ts || isOp "," ts || isOp ";" ts
    || isWord "if" ts

/-- A bound of a range, which may be missing; whether it is there. -/
def rangeBound (r : Rules) : Reader Bool := do
  if ← ahead lacksBound then return false
  if ← ahead isLiteral then ignoring literal
  else if ← ahead isPathStart then ignoring (qualifiedPathOf r true)
  else
    word "const"
    attributedBlock r
  return true

/-- The end of a range whose beginning has been read. -/
def rangeEnd (r : Rules) : Reader PatternForm := do
  let included ← patternDots
  let bounded ← rangeBound r
  if included && !bounded then refuse
  return .range (!bounded)

/-- A range without a beginning, or two dots alone. -/
def rangeWithoutBeginning (r : Rules) : Reader PatternForm := do
  let included ← dots
  let bounded ← rangeBound r
  if bounded then return .range true
  if included then refuse else return .plain

/-- A range or a pattern that begins with a literal or a constant. -/
def literalPattern (r : Rules) : Reader PatternForm := do
  let bounded ← rangeBound r
  unless bounded do refuse
  if ← ahead (isOp "..") then rangeEnd r else return .plain

/-! ## Alternatives -/

/-- Whether another alternative follows. -/
def isAlternative (ts : List Token) : Bool :=
  isOp "|" ts && !isOp "||" ts && !isOp "|=" ts

/-- Alternatives, of which the first may stand behind a bar. -/
def alternatives (r : Rules) : Reader PatternForm := do
  let leading ← optOp "|"
  let first ← r.pattern
  let several ← iterate (fun _ => do
    if ← ahead isAlternative then
      op "|"
      ignoring r.pattern
      return some true
    return none) leading
  return if several then .plain else first

/-! ## Patterns with parts -/

/-- The pattern of a field of a struct. -/
def fieldPattern (r : Rules) : Reader Unit :=
  verbatimIf do
    let boxed ← optWord "box"
    let byRef ← optWord "ref"
    let mutable ← optWord "mut"
    if boxed || byRef || mutable then
      ignoring name
    else
      let named ← member
      if !named || (← ahead (isOp ":")) then
        op ":"
        ignoring (alternatives r)
    return ((), boxed)

/-- The fields of a struct. -/
def fieldPatterns (r : Rules) : Reader Unit :=
  rounds do
    if ← atEnd then return false
    ignoring (outerAttributes r)
    if ← optOp ".." then return false
    fieldPattern r
    if ← atEnd then return false
    op ","
    return true

/-- A pattern that begins with a path. -/
def pathPattern (r : Rules) : Reader PatternForm := do
  let p ← qualifiedPathOf r true
  if !p.qualified && p.plain && (← ahead isMacroMark) then
    ignoring macroCall
    return .plain
  if ← ahead (isGroup .brace) then
    inGroup .brace (fieldPatterns r)
    return .plain
  if ← ahead (isGroup .parenthesis) then
    ignoring (inGroup .parenthesis (commaSeparated (alternatives r)))
    return .plain
  if ← ahead (isOp "..") then rangeEnd r else return .plain

/-- A name with its modifiers, and the pattern it is bound to. -/
def namePattern (r : Rules) : Reader PatternForm := do
  ignoring (optWord "ref")
  ignoring (optWord "mut")
  unless ← optWord "self" do ignoring name
  if ← optOp "@" then ignoring r.pattern
  return .plain

/-- Whether a path of a pattern is next. -/
def isPathPattern (ts : List Token) : Bool :=
  let next := skip ts
  (isName ts && (isOp "::" next || isOp "!" next || isGroup .brace next
    || isGroup .parenthesis next || isOp ".." next))
    || (isWord "self" ts && isOp "::" next) || isOp "::" ts || isOp "<" ts || isWord "Self" ts
    || isWord "super" ts || isWord "crate" ts

/-- Whether a name or one of its modifiers is next. -/
def isNamePattern (ts : List Token) : Bool :=
  isWord "ref" ts || isWord "mut" ts || isWord "self" ts || isName ts

/-- A slice of patterns. -/
def slicePattern (r : Rules) : Reader PatternForm := do
  let forms ← inGroup .bracket (commaSeparated (alternatives r))
  if forms.contains (.range true) then refuse else return .plain

/-- A pattern without alternatives. -/
def pattern (r : Rules) : Reader PatternForm := do
  if ← ahead isPathPattern then pathPattern r
  else if ← optWord "_" then return .plain
  else if ← ahead (isWord "box") then
    verbatim do
      word "box"
      ignoring r.pattern
    return .verbatim
  else if ← ahead (fun ts => isOp "-" ts || isLiteral ts || isWord "const" ts) then
    literalPattern r
  else if ← ahead isNamePattern then namePattern r
  else if ← optOp "&" then
    ignoring (optWord "mut")
    ignoring r.pattern
    return .plain
  else if ← ahead (isGroup .parenthesis) then
    ignoring (inGroup .parenthesis (commaSeparated (alternatives r)))
    return .plain
  else if ← ahead (isGroup .bracket) then slicePattern r
  else rangeWithoutBeginning r

end ObservableStore.Source.Grammar
