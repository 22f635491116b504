import ObservableStore.FileTree.Fault
import ObservableStore.Location
import ObservableStore.Scope

/-!
# Failures

Why no wrapper was generated for a declaration. A failure names its declaration, so that a batch can
report it and go on with the next one.
-/

namespace ObservableStore

/-- Why a type is not made of declared types. -/
inductive TypeRefusal where
  | unresolved (e : ResolveError)
  | form (f : Source.TypeForm)
  | lifetimeArgument
  /-- A constant or a binding among the type arguments; its text. -/
  | otherArgument (written : String)
  /-- A path with arguments in parentheses. -/
  | callPath
deriving DecidableEq, Repr

/-- The wording of a refused type. -/
def TypeRefusal.message : TypeRefusal → String
  | .unresolved e => e.message
  | .form .qualified => "qualified-self paths name an associated type"
  | .form .reference => "references need a lifetime on the store root"
  | .form .tuple => "tuple types have no declaration"
  | .form .sequence => "array and slice types have no declaration"
  | .form .function => "function pointers have no declaration"
  | .form .bounds => "trait types have no declaration"
  | .form .undeclared => "type has no declaration to resolve"
  | .lifetimeArgument => "lifetime arguments need a generic store root"
  | .otherArgument written => "unsupported generic argument `" ++ written ++ "`"
  | .callPath => "`Fn(A) -> B` sugar does not name a type"

/-- Why a declaration has no constructor that takes every field by its name. -/
inductive ConstructorGap where
  | tuple
  | enumeration
  | union
deriving DecidableEq, Repr

/-- The wording of a missing constructor. -/
def ConstructorGap.message : ConstructorGap → String
  | .tuple => "tuple struct fields have no names to generate mutators for"
  | .enumeration => "enums have no single constructor"
  | .union => "unions have no constructor taking every field"

/-- Why a declaration cannot be a store root although it has a constructor. -/
inductive RootRefusal where
  | generic
  /-- A field with the name of the accessor. -/
  | accessorName (field : String)
  /-- A field with the name of another field's awaiting mutator. -/
  | mutatorName (field : String)
deriving DecidableEq, Repr

/-- The wording of a refused root. -/
def RootRefusal.message : RootRefusal → String
  | .generic => "generic parameters are not supported on store roots"
  | .accessorName field =>
    "field `" ++ field ++ "` collides with the generated `" ++ field ++ "()` accessor"
  | .mutatorName field => "field `" ++ field ++ "` collides with a generated awaiting mutator"

/-- Why a destination does not take a unit. -/
inductive SinkError where
  /-- A unit with the same key came first, from an origin. -/
  | duplicate (key firstOrigin : String)
  /-- A unit with another key was written to the same place. -/
  | collision (path : Location) (key firstKey : String)
  | file (fault : FileFault)
deriving DecidableEq, Repr

/-- The wording of a refused unit. -/
def SinkError.message : SinkError → String
  | .duplicate key firstOrigin =>
    "unit `" ++ key ++ "` was already generated in this batch (from " ++ firstOrigin ++ ")"
  | .collision path key firstKey =>
    "unit `" ++ key ++ "` would overwrite `" ++ firstKey ++ "` at " ++ path.text
  | .file fault => "I/O error: " ++ fault.message

/-- Why there is no wrapper. -/
inductive FailureCause where
  | unresolvedType (field written : String) (reason : TypeRefusal)
  | missingConstructor (gap : ConstructorGap)
  | unsupported (reason : RootRefusal)
  | outputWrite (unit : String) (reason : SinkError)
deriving DecidableEq, Repr

/-- A declaration without a wrapper, and the reason. -/
structure Failure where
  home : Namespace
  declaration : String
  cause : FailureCause
deriving DecidableEq, Repr

/-- The wording of a failure behind the name of its declaration. -/
def FailureCause.message : FailureCause → String
  | .unresolvedType field written reason =>
    "field `" ++ field ++ "` has unresolved type `" ++ written ++ "`: " ++ reason.message
  | .missingConstructor gap => "no accessible primary constructor: " ++ gap.message
  | .unsupported reason => "unsupported store root: " ++ reason.message
  | .outputWrite unit reason => "failed to write `" ++ unit ++ "`: " ++ reason.message

/-- The wording of a failure. -/
def Failure.message (f : Failure) : String :=
  f.home.toText ++ "::" ++ f.declaration ++ ": " ++ f.cause.message

end ObservableStore
