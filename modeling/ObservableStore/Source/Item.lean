import ObservableStore.Token.Basic
import ObservableStore.Visibility

/-!
# Items of a source file

What the generator needs to know of a source file: its items with their names, the declarations that
can be store roots, and the imports. Of the rest (bodies of functions, generic parameters, bounds)
only that it is well formed matters, and no trace of it is kept.

A type keeps its structure where it can be resolved, which is where it is a path; every other form
is named (`TypeForm`).
-/

namespace ObservableStore.Source

/-- A path as written: names with `::` between them, behind a leading `::` when `rooted`. -/
structure Path where
  rooted : Bool
  names : List String
deriving DecidableEq, Repr, Inhabited

namespace Path

/-- The path of one name. -/
def ofName (n : String) : Path := ⟨false, [n]⟩

/-- The path without blanks. -/
def toText (p : Path) : String :=
  (if p.rooted then "::" else "") ++ "::".intercalate p.names

/-- Whether the path is just the given name. -/
def isName (p : Path) (n : String) : Bool :=
  !p.rooted && p.names == [n]

end Path

/-! ## Types -/

/-- The forms of types that are not paths to a declaration. -/
inductive TypeForm where
  /-- A path through a trait, `<T as Trait>::Name`. -/
  | qualified
  | reference
  | tuple
  /-- An array or a slice. -/
  | sequence
  /-- A function pointer. -/
  | function
  /-- A trait object or an `impl` type. -/
  | bounds
  /-- Anything else: never, inferred, raw pointers, macro calls. -/
  | undeclared
deriving DecidableEq, Repr, Inhabited

mutual

/-- A type as written. -/
inductive TypeExpr where
  /-- `Self` without arguments: the type that is being declared. -/
  | itself
  /-- A path with the type arguments of its last name. -/
  | path (p : Path) (arguments : List Argument)
  /-- A path whose last name has arguments in parentheses, `Fn(A) -> B`. -/
  | call (p : Path)
  | paren (inner : TypeExpr)
  | other (form : TypeForm)

/-- An argument between angle brackets. -/
inductive Argument where
  | type (t : TypeExpr)
  | lifetime
  /-- A constant, or a binding or bound of an associated type; its tokens. -/
  | other (written : List Token)

end

instance : Inhabited TypeExpr := ⟨.other .undeclared⟩
instance : Inhabited Argument := ⟨.lifetime⟩

/-- Whether an argument is a lifetime. -/
def Argument.isLifetime : Argument → Bool
  | .lifetime => true
  | _ => false

mutual

/-- A type as it reads when written out again: lifetimes stand before all other arguments. -/
def TypeExpr.lifetimesFirst : TypeExpr → TypeExpr
  | .itself => .itself
  | .path p args =>
    let sorted := Argument.lifetimesFirstAll args
    .path p (sorted.filter Argument.isLifetime ++ sorted.filter (fun a => !a.isLifetime))
  | .call p => .call p
  | .paren t => .paren t.lifetimesFirst
  | .other f => .other f

/-- An argument as it reads when written out again. -/
def Argument.lifetimesFirst : Argument → Argument
  | .type t => .type t.lifetimesFirst
  | .lifetime => .lifetime
  | .other w => .other w

/-- Arguments, each as it reads when written out again. -/
def Argument.lifetimesFirstAll : List Argument → List Argument
  | [] => []
  | a :: rest => a.lifetimesFirst :: Argument.lifetimesFirstAll rest

end

/-! ## Attributes and visibility -/

/-- What follows the path of an attribute. -/
inductive AttributeContent where
  | bare
  /-- Tokens between delimiters. -/
  | list (body : List Token)
  /-- A value behind an equals sign; the text of the literal when it is one string literal. -/
  | value (literal : Option String)
deriving Repr, Inhabited

/-- An attribute of a declaration. -/
structure Attribute where
  path : Path
  content : AttributeContent
deriving Repr, Inhabited

/-- A visibility modifier as written. -/
inductive Modifier where
  | none
  | pub
  /-- A path in parentheses: one word, or any path behind `in`. -/
  | within (p : Path)
deriving DecidableEq, Repr, Inhabited

/-- The visibility that a modifier gives. -/
def Modifier.visibility : Modifier → Visibility
  | .none => .inherited
  | .pub => .everywhere
  | .within p =>
    match p.toText with
    | "crate" => .crate
    | "super" => .super
    | "self" => .inherited
    | text => .restricted text

/-! ## Declarations and imports -/

/-- A named field: its type, and the type's tokens as they read when written out again. -/
structure Field where
  name : String
  type : TypeExpr
  written : List Token

instance : Inhabited Field := ⟨⟨"", default, []⟩⟩

/-- The body of a declaration. -/
inductive Body where
  | named (fields : List Field)
  | tuple
  | unit
  | enumeration
  | union

/-- A declaration of a struct, an enum or a union. -/
structure Declaration where
  attributes : List Attribute
  modifier : Modifier
  name : String
  /-- Whether there is a generic parameter. -/
  generic : Bool
  body : Body

/-- The tree of an import. -/
inductive UseTree where
  | path (name : String) (tree : UseTree)
  | name (name : String)
  | rename (name given : String)
  | glob
  | group (trees : List UseTree)
deriving Repr, Inhabited

/-- An item of a module. -/
inductive Item where
  /-- A module, with its items if they are written in place. -/
  | module (name : String) (content : Option (List Item))
  | externCrate (name : String) (given : Option String)
  /-- An import, behind a leading `::` when `rooted`. -/
  | use (rooted : Bool) (tree : UseTree)
  | declaration (d : Declaration)
  | typeAlias (name : String)
  | trait (name : String)
  /-- Anything that declares no type, module or import. -/
  | other

instance : Inhabited Item := ⟨.other⟩

/-- A declaration as it reads when written out again. -/
def Declaration.reprinted (d : Declaration) : Declaration :=
  { d with
    body := match d.body with
      | .named fields => .named (fields.map fun f => { f with type := f.type.lifetimesFirst })
      | body => body }

end ObservableStore.Source
