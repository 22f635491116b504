import ObservableStore.Source.Grammar.Attributes

/-!
# Paths, generic arguments and bounds

Names of a path may have arguments in angle brackets, and in expressions these stand behind `::`.
Only a bound takes arguments in parentheses, `Fn(A) -> B`; the path of a type does not.
-/

namespace ObservableStore.Source.Grammar

open Reader Ahead

/-! ## Lists in angle brackets -/

/-- An element of a list in angle brackets, as it is written again. -/
structure Piece where
  isLifetime : Bool
  tokens : List Token
  /-- Whether a comma follows it. -/
  comma : Bool

/-- A list as it is written again: lifetimes come first, and a comma is put in wherever one is
missing. -/
def Piece.lifetimesFirst (pieces : List Piece) : List Token :=
  let lifetimes := pieces.filter (·.isLifetime)
  let others := pieces.filter (!·.isLifetime)
  let comma : List Token := [.punct ',' false]
  let text := fun (p : Piece) => p.tokens ++ if p.comma then comma else []
  let separated := match lifetimes.getLast? with
    | some p => p.comma
    | none => true
  let (out, _) := others.foldl (fun (out, separated) p =>
    (out ++ (if separated then [] else comma) ++ text p, p.comma)) (lifetimes.flatMap text, separated)
  out

/-- The elements of a list in angle brackets, each with what is written of it; nothing is written
yet. -/
def angleList {α : Type} (isLifetime : α → Bool) (element : Reader α) :
    Reader (List α × List Piece) := do
  let (reversed, _) ← captured do
    op "<"
    let reversed ← iterate (fun found => do
      if ← ahead (isOp ">") then return none
      let (a, tokens) ← captured element
      let comma ← if ← ahead (isOp ">") then pure false else do op ","; pure true
      return some ((a, ⟨isLifetime a, tokens, comma⟩) :: found)) ([] : List (α × Piece))
    op ">"
    return reversed
  let found := reversed.reverse
  return (found.map Prod.fst, found.map Prod.snd)

/-- Writes a list in angle brackets. -/
def writeAngles (tokens : List Token) : Reader Unit :=
  write (.punct '<' false :: tokens ++ [.punct '>' false])

/-! ## Generic arguments -/

/-- Whether a constant argument is next that is not a name. -/
def isConstant (ts : List Token) : Bool :=
  isLiteral ts || isGroup .brace ts

/-- A constant argument: a literal, a name or a block. -/
def constantArgument (r : Rules) : Reader Unit := do
  if ← ahead isLiteral then ignoring literal
  else if ← ahead isName then ignoring name
  else attributedBlock r

/-- The arguments of a name, in angle brackets. -/
def angleArguments (r : Rules) : Reader (List Argument) := do
  let (found, pieces) ← angleList Argument.isLifetime r.argument
  writeAngles (Piece.lifetimesFirst pieces)
  return found

/-- What matters of a path that has been read. -/
structure PathForm where
  path : Path
  /-- The arguments of the last name. -/
  arguments : List Argument
  /-- Whether the last name has a list of arguments, even an empty one. -/
  bracketed : Bool
  /-- Whether no name has one. -/
  plain : Bool
  /-- Whether it goes through a trait, `<T as Trait>::Name`. -/
  qualified : Bool

/-- A name of a path with its arguments. In expressions the arguments stand behind `::`. -/
def pathName (r : Rules) (inExpression : Bool) :
    Reader (String × Option (List Argument)) := do
  if ← ahead (fun ts => isPathWord ts || isWord "try" ts) then
    let n ← anyWord
    return (n, none)
  let n ← if ← ahead (isWord "Self") then anyWord else name
  let bare ← ahead (fun ts => isOp "<" ts && !isOp "<=" ts && !isOp "<<=" ts)
  let behindColons ← ahead (fun ts => isOp "::" ts && isOp "<" (skip (skip ts)))
  if (bare && !inExpression) || behindColons then
    ignoring (optOp "::")
    let args ← angleArguments r
    return (n, some args)
  return (n, none)

/-- The names of a path. Two colons in front of parentheses do not belong to it, where arguments in
parentheses may follow. -/
def pathNames (r : Rules) (inExpression calls : Bool) :
    Reader (List (String × Option (List Argument))) := do
  let first ← pathName r inExpression
  let reversed ← iterate (fun names => do
      if ← ahead (fun ts => isOp "::" ts && !(calls && isGroup .parenthesis (skip (skip ts)))) then
        op "::"
        let n ← pathName r inExpression
        return some (n :: names)
      return none) [first]
  return reversed.reverse

/-- A path out of its names. -/
def pathForm (rooted qualified : Bool) (names : List (String × Option (List Argument))) :
    PathForm :=
  let last := names.getLast?.bind Prod.snd
  { path := ⟨rooted, names.map Prod.fst⟩
    arguments := last.getD []
    bracketed := last.isSome
    plain := names.all (·.2.isNone)
    qualified }

/-- A path. -/
def pathOf (r : Rules) (inExpression : Bool) : Reader PathForm := do
  let rooted ← optOp "::"
  let names ← pathNames r inExpression true
  return pathForm rooted false names

/-- A path that may go through a trait. -/
def qualifiedPathOf (r : Rules) (inExpression : Bool) :
    Reader PathForm := do
  if ← optOp "<" then
    ignoring (r.type true)
    if ← optWord "as" then
      ignoring (pathOf r false)
    op ">"
    op "::"
    let names ← pathNames r inExpression false
    return pathForm false true names
  pathOf r inExpression

/-! ## Bounds -/

/-- A path as a bound, with the parameters and the result of its call in parentheses. -/
def boundPath (r : Rules) : Reader Unit := do
  let p ← pathOf r false
  let call ← ahead (fun ts => isGroup .parenthesis ts
    || (isOp "::" ts && isGroup .parenthesis (skip (skip ts))))
  if !p.bracketed && call then
    ignoring (optOp "::")
    ignoring (inGroup .parenthesis (commaSeparated (r.type true)))
    if ← optOp "->" then
      ignoring (r.type false)

/-- Generic parameters behind `for`, in angle brackets. -/
def binder (r : Rules) : Reader Unit := do
  word "for"
  op "<"
  rounds do
    if ← ahead (isOp ">") then return false
    ignoring (r.parameter false)
    if ← ahead (isOp ">") then return false
    op ","
    return true
  op ">"

/-- A bound by a trait; whether the trait is marked as constant, by `const` or `[const]`. It may be
where `constant` says so. -/
def traitBound (r : Rules) (constant : Bool) : Reader Bool := do
  let bound ← ahead (isWord "for")
  if bound then binder r
  let marked ← if ← ahead (isGroup .bracket) then do
      inGroup .bracket (word "const")
      pure true
    else optWord "const"
  if marked && !constant then refuse
  let maybe ← optOp "?"
  if maybe && bound then refuse
  boundPath r
  return marked

/-- The captured parameters of an opaque type, `use<'a, T>`. -/
def capturedParameters : Reader Unit := do
  word "use"
  let (_, pieces) ← angleList id do
    let found ← ahead isLifetime
    if found then lifetime
    else
      require (fun ts => isName ts || isWord "Self" ts)
      ignoring anyWord
    return found
  writeAngles (Piece.lifetimesFirst pieces)

/-- The kinds of bounds that are allowed beside lifetimes and traits. -/
structure BoundKinds where
  /-- Captured parameters. -/
  captures : Bool
  /-- Traits marked as constant. -/
  constant : Bool

/-- A bound; whether it is a trait. -/
def boundOf (r : Rules) (kinds : BoundKinds) : Reader Bool := do
  if ← ahead isLifetime then
    lifetime
    return false
  if ← ahead (isWord "use") then
    capturedParameters
    unless kinds.captures do refuse
    return false
  verbatimIf do
    let marked ← if ← ahead (isGroup .parenthesis) then
        inGroup .parenthesis (traitBound r kinds.constant)
      else traitBound r kinds.constant
    return (true, marked)

/-- Whether a bound can begin here, behind a plus sign. -/
def isBoundStart (ts : List Token) : Bool :=
  isAnyWord ts || isOp "::" ts || isOp "?" ts || isLifetime ts || isGroup .parenthesis ts
    || isGroup .bracket ts

/-- The bounds behind the first one, each behind a plus sign; the last plus sign may stand alone. -/
def moreBounds (bound : Reader Bool) (found : Bool) : Reader Bool :=
  iterate (fun found => do
    if ← optOp "+" then
      if ← ahead isBoundStart then
        let trait ← bound
        return some (found || trait)
    return none) found

/-- A list of bounds, or one bound where sums are not allowed. A trait must be among them. -/
def boundsOf (bound : Reader Bool) (plus : Bool) : Reader Unit := do
  let first ← bound
  let found ← if plus then moreBounds bound first else pure first
  unless found do refuse

/-- Bounds with plus signs between them, up to tokens that end the list. -/
def boundsUntil (bound : Reader Bool) (stop : List Token → Bool) : Reader Unit :=
  rounds do
    if ← ahead stop then return false
    ignoring bound
    if ← ahead stop then return false
    op "+"
    return true

/-- Bounds with plus signs between them; the list ends where no plus sign follows. -/
def looseBoundsUntil (bound : Reader Bool) (stop : List Token → Bool) : Reader Unit :=
  rounds do
    if ← ahead stop then return false
    ignoring bound
    optOp "+"

/-- A colon with what it introduces; the colon is not written without it. -/
def introduced (content : Reader Unit) : Reader Unit := do
  let ts ← tokensOf content
  unless ts.isEmpty do write (.punct ':' false :: ts)

/-- Lifetimes with plus signs between them; the list ends where no plus sign follows. -/
def lifetimesUntil (stop : List Token → Bool) : Reader Unit :=
  rounds do
    if ← ahead stop then return false
    lifetime
    optOp "+"

/-! ## Arguments and parameters -/

/-- Whether a type is a single name, which can be the name of an associated type. -/
def isSingleName : TypeExpr → Bool
  | .itself => true
  | .path ⟨false, [_]⟩ _ => true
  | _ => false

/-- A generic argument. -/
def argument (r : Rules) : Reader Argument := do
  if ← ahead (fun ts => isLifetime ts && !isOp "+" (skip ts)) then
    lifetime
    return .lifetime
  if ← ahead isConstant then
    let (_, ts) ← recorded (constantArgument r)
    return .other ts
  let (t, ts) ← recorded (r.type true)
  if isSingleName t && (← ahead (isOp "=")) then
    let (_, more) ← recorded do
      op "="
      if ← ahead isConstant then constantArgument r else ignoring (r.type true)
    return .other (ts ++ more)
  if isSingleName t && (← ahead (isOp ":")) then
    let (_, more) ← recorded do
      op ":"
      boundsUntil (boundOf r ⟨false, true⟩) (fun ts => isOp "," ts || isOp ">" ts)
    return .other (ts ++ more)
  return .type t

/-- A generic parameter with its attributes; whether it is a lifetime. It may be an underscore where
`anonymous` says so. -/
def parameter (r : Rules) (anonymous : Bool) : Reader Bool := do
  ignoring (outerAttributes r)
  if ← ahead isLifetime then
    lifetime
    if ← unwritten (optOp ":") then introduced (lifetimesUntil (fun ts => isOp "," ts || isOp ">" ts))
    return true
  if ← ahead isName then
    ignoring name
    if ← unwritten (optOp ":") then
      introduced (looseBoundsUntil (boundOf r ⟨false, true⟩)
        (fun ts => isOp "," ts || isOp ">" ts || isOp "=" ts))
    if ← optOp "=" then ignoring (r.type true)
  else if ← optWord "const" then
    ignoring name
    op ":"
    ignoring (r.type true)
    if ← optOp "=" then constantArgument r
  else
    unless anonymous do refuse
    word "_"
  return false

end ObservableStore.Source.Grammar
