import ObservableStore.Source.Grammar.Generics

/-!
# Declarations of structs, enums and unions

Of the fields in braces the name and the type are kept, with the tokens of the type as they are
written out again. Of all other fields and of variants nothing is kept.
-/

namespace ObservableStore.Source.Grammar

open Reader Ahead

/-- The type of a field in braces. A field without a name may hold fields of its own. -/
def fieldType (r : Rules) (unnamed : Bool) (nested : Reader Unit) : Reader TypeExpr := do
  let holds ← ahead fun ts =>
    isWord "struct" ts || (isWord "union" ts && isGroup .brace (skip ts))
  if unnamed && holds then
    verbatim do
      ignoring anyWord
      nested
    return .other .undeclared
  r.type true

/-- A field in braces, given how fields nested in it are read. -/
def namedField (r : Rules) (nested : Reader Unit) : Reader Field := do
  ignoring (outerAttributes r)
  ignoring modifier
  let unnamed ← ahead (isWord "_")
  let n ← if unnamed then anyWord else name
  op ":"
  let (type, written) ← recorded (fieldType r unnamed nested)
  return { name := n, type, written }

/-- Fields in braces, nested at most to a depth. -/
def fieldsWithin (r : Rules) : Nat → Reader (List Field)
  | 0 => refuse
  | depth + 1 => fun c =>
    inGroup .brace (commaSeparated (namedField r fun c => ignoring (fieldsWithin r depth) c)) c

/-- Fields in braces. Every level of nesting is a group of its own. -/
def namedFields (r : Rules) : Reader (List Field) := fun c =>
  fieldsWithin r (Token.sizeAll c.rest) c

/-- A field in parentheses. -/
def tupleField (r : Rules) : Reader Unit := do
  ignoring (outerAttributes r)
  ignoring modifier
  ignoring (r.type true)

/-- Fields in parentheses. -/
def tupleFields (r : Rules) : Reader Unit :=
  ignoring (inGroup .parenthesis (commaSeparated (tupleField r)))

/-- The body of a struct. -/
def structBody (r : Rules) : Reader Body := do
  let constrained ← whereClause r
  if !constrained && (← ahead (isGroup .parenthesis)) then
    tupleFields r
    ignoring (whereClause r)
    op ";"
    return .tuple
  if ← ahead (isGroup .brace) then
    let fields ← namedFields r
    return .named fields
  op ";"
  return .unit

/-- A variant of an enum. Its visibility is not written. -/
def variant (r : Rules) : Reader Unit := do
  ignoring (outerAttributes r)
  ignoring (unwritten modifier)
  ignoring name
  if ← ahead (isGroup .brace) then ignoring (namedFields r)
  else if ← ahead (isGroup .parenthesis) then tupleFields r
  if ← optOp "=" then expression r

/-- The body of an enum. -/
def enumBody (r : Rules) : Reader Body := do
  ignoring (whereClause r)
  ignoring (inGroup .brace (commaSeparated (variant r)))
  return .enumeration

/-- The body of a union. -/
def unionBody (r : Rules) : Reader Body := do
  ignoring (whereClause r)
  ignoring (namedFields r)
  return .union

/-- A declaration with its attributes and its visibility. -/
def declaration (r : Rules) : Reader Declaration := do
  let attributes ← outerAttributes r
  let modifier ← modifier
  let body ←
    if ← optWord "struct" then pure (structBody r)
    else if ← optWord "enum" then pure (enumBody r)
    else do
      word "union"
      pure (unionBody r)
  let name ← name
  let generics ← generics r
  let body ← body
  return { attributes, modifier, name, generic := generics.named, body }

end ObservableStore.Source.Grammar
