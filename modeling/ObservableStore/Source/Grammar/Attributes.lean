import ObservableStore.Source.Grammar.Basic

/-!
# Attributes, visibility and macro calls

An attribute has a path and either nothing, a group of tokens of any kind, or a value. The value is
an expression; a literal that stands alone is taken as it is.
-/

namespace ObservableStore.Source.Grammar

open Reader Ahead

/-- The path of an attribute. -/
def attributePath : Reader Path := do
  if ← optWord "unsafe" then return Path.ofName "unsafe"
  plainPath

/-- The text of a list of tokens that is one string literal. -/
def stringLiteral? : List Token → Option String
  | [.literal s] => if isString [.literal s] then some s else none
  | _ => none

/-- The value of an attribute, behind the equals sign; the text of the literal when it is one string
literal. -/
def attributeValue (r : Rules) : Reader (Option String) := do
  let alone ← tryAhead (do ignoring literal; require List.isEmpty)
  if alone.isSome then
    let s ← literal
    return stringLiteral? [.literal s]
  else if ← ahead (fun ts => isOp "#" ts && isGroup .bracket (skip ts)) then
    refuse
  else
    let (_, ts) ← recorded (expression r)
    return stringLiteral? ts

/-- What stands behind the path of an attribute. -/
def attributeContent (r : Rules) : Reader AttributeContent := do
  if ← ahead (fun ts => isGroup .parenthesis ts || isGroup .bracket ts || isGroup .brace ts) then
    let (_, body) ← anyGroup
    return .list body
  if ← optOp "=" then
    let s ← attributeValue r
    return .value s
  return .bare

/-- An attribute without its number sign and brackets. -/
def attributeBody (r : Rules) : Reader Attribute := do
  let path ← attributePath
  let content ← attributeContent r
  return { path, content }

/-- The attributes in front of an element. -/
def outerAttributes (r : Rules) : Reader (List Attribute) := do
  let reversed ← iterate (fun as => do
      if ← optOp "#" then
        let a ← inGroup .bracket (attributeBody r)
        return some (a :: as)
      return none) []
  return reversed.reverse

/-- The attributes of the element whose body begins here. -/
def innerAttributes (r : Rules) : Reader Unit :=
  rounds do
    if ← ahead (fun ts => isOp "#" ts && isOp "!" (skip ts)) then
      op "#"
      op "!"
      ignoring (inGroup .bracket (attributeBody r))
      return true
    return false

/-- A block: statements in braces. -/
def block (r : Rules) : Reader Unit :=
  inGroup .brace r.statements

/-- A block that may begin with attributes of its element. -/
def attributedBlock (r : Rules) : Reader Unit :=
  inGroup .brace do
    innerAttributes r
    r.statements

/-! ## Visibility -/

/-- The restriction behind `pub`, if the group that is next is one. A single word in parentheses is
one; parentheses that hold more belong to what follows. -/
def restriction : Reader Path := do
  inGroup .parenthesis do
    if ← optWord "in" then
      plainPath
    else
      require (fun ts => isWord "crate" ts || isWord "self" ts || isWord "super" ts)
      let w ← anyWord
      return Path.ofName w

/-- A visibility modifier, which may be empty. -/
def modifier : Reader Modifier := do
  unless ← optWord "pub" do return .none
  let next ← fun c => some (match c.rest with | .group .parenthesis ts :: _ => ts | _ => [], c)
  if isWord "in" next then
    let p ← restriction
    return .within p
  match next with
  | [.word _] =>
    let found ← tryAhead restriction
    match found with
    | some _ => do
      let p ← restriction
      return .within p
    | none => return .pub
  | _ => return .pub

/-! ## Macro calls -/

/-- The tokens of a macro call, behind its exclamation mark; whether they stand in braces. -/
def macroBody : Reader Bool := do
  let (d, _) ← anyGroup
  return d == .brace

/-- The exclamation mark and the tokens of a macro call; whether they stand in braces. -/
def macroCall : Reader Bool := do
  op "!"
  macroBody

end ObservableStore.Source.Grammar
