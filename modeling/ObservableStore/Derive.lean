import ObservableStore.GeneratedUnit
import ObservableStore.Root
import ObservableStore.Source.File
import ObservableStore.Text.StringLiteral

/-!
# Deriving a wrapper in place

A declaration that is seen alone gets its wrapper spliced into its own module. Its attribute
`flowstore` may name the path of the runtime crate; of several paths the last one counts.
-/

namespace ObservableStore

namespace Derive

/-- Why no wrapper is derived. -/
inductive DeriveError where
  /-- An attribute without a list of arguments, or with a list that cannot be read. -/
  | attribute
  | unknownArgument
  /-- A path that is not given by a string literal. -/
  | notString
  | failure (f : Failure)
  /-- A text that is not made of tokens, which the path of the runtime crate can cause. -/
  | notTokens
deriving DecidableEq, Repr

/-- The wording of an error, except where an attribute is malformed. -/
def DeriveError.message? : DeriveError → Option String
  | .attribute => none
  | .unknownArgument => some "unknown flowstore attribute"
  | .notString => some "expected a string literal"
  | .failure f => some f.message
  | .notTokens => some "generated store does not lex: cannot parse string into token stream"

/-- The name of the attribute. -/
def attributeName : String := "flowstore"

/-- The arguments of an attribute. -/
def argumentsOf (a : Source.Attribute) : Option (List Source.Attribute) :=
  match a.content with
  | .list body =>
    let r := Source.Grammar.rulesFor body
    Source.Reader.readAll (Source.Reader.commaSeparated (Source.Grammar.attributeBody r)) body
  | _ => none

/-- The path that an argument gives. -/
def pathOf (argument : Source.Attribute) : Except DeriveError String :=
  match argument.content with
  | .value literal =>
    if argument.path.isName "crate" then
      match literal with
      | some text => .ok (Text.StringLiteral.valueOf text)
      | none => .error .notString
    else .error .unknownArgument
  | _ => .error .unknownArgument

/-- The path that is given last, behind a path that was given before. -/
def lastPath (before : Option String) :
    List Source.Attribute → Except DeriveError (Option String)
  | [] => .ok before
  | argument :: rest => do
    let path ← pathOf argument
    lastPath (some path) rest

/-- The path of the runtime crate that attributes give. -/
def runtimePathFrom (before : Option String) :
    List Source.Attribute → Except DeriveError (Option String)
  | [] => .ok before
  | a :: rest =>
    if a.path.isName attributeName then
      match argumentsOf a with
      | none => .error .attribute
      | some arguments => do
        let path ← lastPath before arguments
        runtimePathFrom path rest
    else runtimePathFrom before rest

/-- The path of the runtime crate that the attributes of a declaration give. -/
def runtimePath (d : Source.Declaration) : Except DeriveError (Option String) :=
  runtimePathFrom none d.attributes

/-- The options that a path of the runtime crate gives. -/
def optionsFor (path : Option String) : EmitOptions :=
  { EmitOptions.inline with runtimePath := path.getD defaultRuntimePath }

/-- The unit of the wrapper that is derived for a declaration. -/
def unit (d : Source.Declaration) : Except DeriveError GeneratedUnit := do
  let path ← runtimePath d
  match (Root.alone d).describe with
  | .ok description => return description.emit (optionsFor path)
  | .error f => .error (.failure f)

/-- The tokens of the wrapper that is derived for a declaration. -/
def expand (d : Source.Declaration) : Except DeriveError (List Token) := do
  let u ← unit d
  match Token.ofText u.source with
  | some ts => return ts
  | none => .error .notTokens

end Derive

end ObservableStore
