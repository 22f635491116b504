import ObservableStore.Source.Grammar.Declarations
import ObservableStore.Source.Grammar.Functions

/-!
# Items

Only items that give a name to a type, a module or an import are told apart (`Item`). A declaration
of a type without a definition, an import that begins at the crate root inside a group, and items of
functions and values are read and not kept.

Some forms are accepted although they have no meaning yet, such as a function without a body or a
constant with generic parameters. They are not understood further, so their tokens are written out
again as they stood; the readers below say so by a result of `true`.
-/

namespace ObservableStore.Source.Grammar

open Reader Ahead

/-- Items that are written one behind the other, to the end. -/
def toEnd (one : Reader Unit) : Reader Unit :=
  ignoring (untilEnd one)

/-- The body of items in braces, behind the attributes of its element. -/
def membersBody (r : Rules) (one : Reader Unit) : Reader Unit :=
  inGroup .brace do
    innerAttributes r
    toEnd one

/-- A macro call in place of an item; it ends in a semicolon unless its tokens stand in braces. -/
def memberMacro (r : Rules) : Reader Unit := do
  ignoring (outerAttributes r)
  ignoring plainPath
  let braces ← macroCall
  unless braces do op ";"

/-! ## Values -/

/-- The name of a constant, which may be an underscore. -/
def constantName : Reader Unit := do
  require (fun ts => isName ts || isWord "_" ts)
  ignoring anyWord

/-- What a constant has beside its name and its type. -/
structure ConstantForm where
  /-- Whether there are generic parameters or constraints. -/
  generic : Bool
  /-- Whether there is a value. -/
  valued : Bool

/-- A constant behind its visibility. The value may be missing. -/
def constant (r : Rules) : Reader ConstantForm := do
  word "const"
  constantName
  let generics ← generics r
  op ":"
  ignoring (r.type true)
  let valued ← optOp "="
  if valued then expression r
  let constrained ← whereClause r
  op ";"
  return ⟨generics.present || constrained, valued⟩

/-- A static variable behind its visibility. The type or the value may be missing. -/
def staticItem (r : Rules) : Reader Bool := do
  word "static"
  ignoring (optWord "mut")
  ignoring name
  let typed ← optOp ":"
  if typed then ignoring (r.type true)
  let last ← ahead (fun ts => typed && isOp ";" ts)
  unless last do
    op "="
    expression r
  op ";"
  return !typed || last

/-! ## Type definitions -/

/-- The places where constraints of a type definition may stand. -/
structure ConstraintPlaces where
  before : Bool
  behind : Bool

/-- What matters of a definition of a type. -/
structure DefinitionForm where
  name : String
  /-- Whether there is a list of bounds, even an empty one. -/
  bounded : Bool
  /-- Whether the type is defined. -/
  defined : Bool

/-- Whether the type is defined and has no bounds. -/
def DefinitionForm.isAlias (d : DefinitionForm) : Bool :=
  d.defined && !d.bounded

/-- The end of the bounds of a definition. -/
def endsBounds (ts : List Token) : Bool :=
  isWord "where" ts || isOp "=" ts || isOp ";" ts

/-- A definition of a type behind its visibility. -/
def typeDefinition (r : Rules) (places : ConstraintPlaces) : Reader DefinitionForm := do
  word "type"
  let name ← name
  ignoring (generics r)
  let bounded ← unwritten (optOp ":")
  if bounded then introduced (boundsUntil (boundOf r ⟨false, true⟩) endsBounds)
  let constrained ← if places.before then whereClause r else pure false
  let defined ← optOp "="
  if defined then ignoring (r.type true)
  if places.behind && !constrained then ignoring (whereClause r)
  op ";"
  return { name, bounded, defined }

/-! ## Imports -/

/-- A branch of an import without its own group: a name, what follows it, or an asterisk. -/
def useName (r : Rules) : Reader UseTree := do
  if ← optOp "*" then return .glob
  require (fun ts => isName ts || isPathWord ts || isWord "try" ts)
  let n ← anyWord
  if ← optOp "::" then
    match ← r.useTree false with
    | some tree => return .path n tree
    | none => refuse
  if ← optWord "as" then
    require (fun ts => isName ts || isWord "_" ts)
    let given ← anyWord
    return .rename n given
  return .name n

/-- The branches of a group, and whether one of them begins at the crate root. -/
def useGroup (r : Rules) (mayBeRooted : Bool) : Reader (Option UseTree) := do
  let branches ← inGroup .brace (commaSeparated do
    let rooted ← if mayBeRooted then optOp "::" else pure false
    let tree ← r.useTree (mayBeRooted && !rooted)
    return if rooted then none else tree)
  return if branches.all Option.isSome then some (.group branches.reduceOption) else none

/-- The tree of an import. -/
def useTree (r : Rules) (mayBeRooted : Bool) : Reader (Option UseTree) := do
  if ← ahead (isGroup .brace) then useGroup r mayBeRooted
  else
    let tree ← useName r
    return some tree

/-- An import behind its visibility. -/
def useItem (r : Rules) : Reader (Item × Bool) := do
  word "use"
  let rooted ← optOp "::"
  let tree ← r.useTree (!rooted)
  op ";"
  match tree with
  | some tree => return (.use rooted tree, false)
  | none => return (.other, true)

/-- An external crate behind its visibility. -/
def externCrate : Reader Item := do
  word "extern"
  word "crate"
  let n ← if ← ahead (isWord "self") then anyWord else name
  let given ← if ← optWord "as" then
      require (fun ts => isName ts || isWord "_" ts)
      let a ← anyWord
      pure (some a)
    else pure none
  op ";"
  return .externCrate n given

/-! ## Functions, traits and implementations -/

/-- The body of a function, or the semicolon in its place; whether there is a body. -/
def functionEnd (r : Rules) : Reader Bool := do
  if ← ahead (isGroup .brace) then
    attributedBlock r
    return true
  op ";"
  return false

/-- A macro call as a member that begins at a cursor, where nothing of a member has been read but
attributes. -/
def memberOther (r : Rules) (begin : Cursor) (bare : Bool) : Reader Bool := do
  unless bare do refuse
  require isMacroStart
  fun _ => (do memberMacro r; return false : Reader Bool) begin

/-- A member of a trait. -/
def traitMember (r : Rules) : Reader Unit := verbatimIf do
  let begin ← fun c => some (c, c)
  ignoring (outerAttributes r)
  let m ← modifier
  let marked ← optWord "default"
  let bare := m == .none && !marked
  let asStood ←
    if ← ahead (isSignature false) then do
      ignoring (signature r false)
      ignoring (functionEnd r)
      pure false
    else if ← ahead (isWord "const") then do
      let c ← constant r
      pure c.generic
    else if ← ahead (isWord "type") then do
      ignoring (typeDefinition r ⟨false, true⟩)
      pure false
    else memberOther r begin bare
  return ((), asStood || !bare)

/-- A member of an implementation. -/
def implMember (r : Rules) : Reader Unit := verbatimIf do
  let begin ← fun c => some (c, c)
  ignoring (outerAttributes r)
  let m ← modifier
  let marked ← ahead fun ts => isWord "default" ts && !isOp "!" (skip ts)
  if marked then word "default"
  let asStood ←
    if ← ahead (isSignature false) then do
      ignoring (signature r false)
      let body ← functionEnd r
      pure !body
    else if ← ahead (isWord "const") then do
      let c ← constant r
      pure (c.generic || !c.valued)
    else if ← ahead (isWord "type") then do
      let d ← typeDefinition r ⟨false, true⟩
      pure !d.isAlias
    else memberOther r begin (m == .none && !marked)
  return ((), asStood)

/-- A static variable in a block of foreign items. -/
def foreignStatic (r : Rules) : Reader Bool := do
  let marked ← if ← optWord "unsafe" then pure true else optWord "safe"
  word "static"
  ignoring (optWord "mut")
  ignoring name
  op ":"
  ignoring (r.type true)
  let valued ← optOp "="
  if valued then expression r
  op ";"
  return marked || valued

/-- A member of a block of foreign items. -/
def foreignMember (r : Rules) : Reader Unit := verbatimIf do
  let begin ← fun c => some (c, c)
  ignoring (outerAttributes r)
  let m ← modifier
  let asStood ←
    if ← ahead (isSignature true) then do
      let safe ← signature r true
      let body ← functionEnd r
      pure (safe || body)
    else if ← ahead (fun ts => isWord "static" ts
        || ((isWord "unsafe" ts || isWord "safe" ts) && isWord "static" (skip ts))) then
      foreignStatic r
    else if ← ahead (isWord "type") then do
      let d ← typeDefinition r ⟨true, true⟩
      pure (d.bounded || d.defined)
    else memberOther r begin (m == .none)
  return ((), asStood)

/-- A trait behind its generic parameters. -/
def traitBody (r : Rules) : Reader Unit := do
  if ← unwritten (optOp ":") then
    introduced
      (boundsUntil (boundOf r ⟨false, true⟩) (fun ts => isWord "where" ts || isGroup .brace ts))
  ignoring (whereClause r)
  membersBody r (traitMember r)

/-- A trait behind its visibility. -/
def traitItem (r : Rules) : Reader Item := do
  ignoring (optWord "unsafe")
  ignoring (optWord "auto")
  word "trait"
  let n ← name
  ignoring (generics r)
  traitBody r
  return .trait n

/-- A trait or another name for bounds, behind its visibility. -/
def traitOrAlias (r : Rules) : Reader Item := do
  word "trait"
  let n ← name
  ignoring (generics r)
  if ← optOp "=" then
    boundsUntil (boundOf r ⟨false, false⟩) (fun ts => isWord "where" ts || isOp ";" ts)
    ignoring (whereClause r)
    op ";"
    return .other
  require (fun ts => isGroup .brace ts || isOp ":" ts || isWord "where" ts)
  traitBody r
  return .trait n

/-- Whether a type can be the trait of an implementation. -/
def isTraitPath : TypeExpr → Bool
  | .itself => true
  | .path _ _ => true
  | _ => false

/-- An implementation behind its visibility. -/
def implementation (r : Rules) : Reader Bool := do
  ignoring (optWord "default")
  ignoring (optWord "unsafe")
  word "impl"
  if ← ahead isGenericList then ignoring (generics r)
  let constant ← ahead fun ts => isWord "const" ts || (isOp "?" ts && isWord "const" (skip ts))
  if constant then
    ignoring (optOp "?")
    word "const"
  let negative ← ahead (fun ts => isOp "!" ts && !isGroup .brace (skip ts))
  if negative then op "!"
  let t ← r.type true
  let ofTrait ← optWord "for"
  if ofTrait then ignoring (r.type true)
  if negative && !ofTrait then refuse
  ignoring (whereClause r)
  membersBody r (implMember r)
  return constant || (ofTrait && !isTraitPath t)

/-- A block of foreign items. -/
def foreignBlock (r : Rules) : Reader Unit := do
  ignoring (optWord "unsafe")
  convention
  membersBody r (foreignMember r)

/-! ## Macros -/

/-- The definition of a macro by example, behind its visibility. -/
def macroDefinition : Reader Unit := do
  word "macro"
  ignoring name
  if ← ahead (isGroup .parenthesis) then rawGroup .parenthesis
  rawGroup .brace

/-- A macro call as an item; a name may stand before its tokens. -/
def macroItem : Reader Unit := do
  ignoring plainPath
  op "!"
  if ← ahead (fun ts => isName ts || isWord "try" ts) then ignoring anyWord
  let braces ← macroBody
  unless braces do op ";"

/-! ## Modules -/

/-- A module behind its visibility. -/
def moduleItem (r : Rules) : Reader Item := do
  ignoring (optWord "unsafe")
  word "mod"
  let n ← if ← ahead (isWord "try") then anyWord else name
  if ← optOp ";" then return .module n none
  let items ← inGroup .brace do
    innerAttributes r
    untilEnd r.item
  return .module n (some items)

/-! ## All items -/

/-- Whether a struct, an enum or a union is next, behind its visibility. -/
def isDeclaration (ts : List Token) : Bool :=
  isWord "struct" ts || isWord "enum" ts || (isWord "union" ts && isName (skip ts))

/-- Whether a trait is next, behind its visibility and `unsafe`. -/
def isTrait (ts : List Token) : Bool :=
  isWord "trait" ts || (isWord "auto" ts && isWord "trait" (skip ts))

/-- Whether foreign items are next, behind `unsafe`. -/
def isForeignBlock (ts : List Token) : Bool :=
  let next := skip ts
  isWord "extern" ts && (isGroup .brace next || (isString next && isGroup .brace (skip next)))

/-- An item that begins with `unsafe`. -/
def unsafeItem (r : Rules) (bare : Bool) : Reader (Item × Bool) := do
  let next ← fun c => some (skip c.rest, c)
  if isTrait next then
    let i ← traitItem r
    return (i, false)
  if isWord "impl" next then
    let asStood ← implementation r
    return (.other, asStood || !bare)
  if isWord "extern" next && bare then
    foreignBlock r
    return (.other, false)
  let i ← moduleItem r
  return (i, false)

/-- An item, with its attributes and its visibility. -/
def item (r : Rules) : Reader Item := verbatimIf do
  let understood := fun (a : Reader Item) => do
    let i ← a
    return (i, false)
  let nameless := fun (a : Reader Bool) => do
    let asStood ← a
    return (Item.other, asStood)
  let begin ← fun c => some (c, c)
  ignoring (outerAttributes r)
  let m ← modifier
  let bare := m == .none
  if ← ahead (isSignature false) then
    nameless do
      ignoring (signature r false)
      let body ← functionEnd r
      return !body
  else if ← ahead (fun ts => isWord "extern" ts && isWord "crate" (skip ts)) then
    understood externCrate
  else if ← ahead (isWord "extern") then
    require (fun ts => bare && isForeignBlock ts)
    nameless do
      foreignBlock r
      return false
  else if ← ahead (isWord "use") then useItem r
  else if ← ahead (isWord "static") then nameless (staticItem r)
  else if ← ahead (isWord "const") then
    nameless do
      let c ← constant r
      return c.generic || !c.valued
  else if ← ahead (isWord "unsafe") then unsafeItem r bare
  else if ← ahead (isWord "mod") then understood (moduleItem r)
  else if ← ahead (isWord "type") then
    let d ← typeDefinition r ⟨true, false⟩
    return (if d.isAlias then .typeAlias d.name else .other, !d.isAlias)
  else if ← ahead isDeclaration then
    let d ← fun _ => declaration r begin
    return (.declaration d, false)
  else if ← ahead (isWord "trait") then understood (traitOrAlias r)
  else if ← ahead isTrait then understood (traitItem r)
  else if ← ahead (fun ts => isWord "impl" ts
      || (isWord "default" ts && !isOp "!" (skip ts))) then
    nameless do
      let asStood ← implementation r
      return asStood || !bare
  else if ← ahead (isWord "macro") then
    nameless do
      macroDefinition
      return true
  else
    require (fun ts => bare && isMacroStart ts)
    nameless do
      macroItem
      return false

end ObservableStore.Source.Grammar
