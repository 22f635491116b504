import ObservableStore.Description
import ObservableStore.Failure

/-!
# Store roots

A store root is a declaration with the scope of its module and its origin. Describing it resolves
the types of its fields, in order, and stops at the first thing that rules a wrapper out: generic
parameters, a kind of declaration without named fields, then field by field a reserved name or a
type that does not resolve, and last a field that has the name of another field's awaiting mutator.
-/

namespace ObservableStore

/-- A declaration for which a wrapper is wanted. -/
structure Root where
  declaration : Source.Declaration
  scope : Scope
  origin : Origin

namespace Root

/-- A declaration that is seen alone. -/
def alone (d : Source.Declaration) : Root :=
  ⟨d, .lenient .here, .detached⟩

/-- The name of the declaration. -/
def name (r : Root) : String := r.declaration.name

/-- The namespace of the declaration. -/
def home (r : Root) : Namespace := r.scope.home

/-! ## Types -/

mutual

/-- The shape of a type, where `self` is the type that is being declared. -/
def shapeOf (self : TypeName) (s : Scope) : Source.TypeExpr → Except TypeRefusal Shape
  | .paren t => shapeOf self s t
  | .itself => .ok (.mk self.home self.name [])
  | .path p args =>
    match s.resolve p with
    | .ok t => (shapesOf self s args).map (.mk t.home t.name)
    | .error e => .error (.unresolved e)
  | .call p =>
    match s.resolve p with
    | .ok _ => .error .callPath
    | .error e => .error (.unresolved e)
  | .other f => .error (.form f)

/-- The shapes of type arguments, in order. -/
def shapesOf (self : TypeName) (s : Scope) : List Source.Argument → Except TypeRefusal (List Shape)
  | [] => .ok []
  | .type t :: rest => do
    let shape ← shapeOf self s t
    let shapes ← shapesOf self s rest
    return shape :: shapes
  | .lifetime :: _ => .error .lifetimeArgument
  | .other written :: _ => .error (.otherArgument (Token.textOfAll written))

end

/-! ## Descriptions -/

/-- The names that no field may have. -/
def reservedNames : List String := ["flow"]

/-- The named fields of a declaration, if it is built from them. -/
def fieldsOf : Source.Body → Except ConstructorGap (List Source.Field)
  | .named fields => .ok fields
  | .unit => .ok []
  | .tuple => .error .tuple
  | .enumeration => .error .enumeration
  | .union => .error .union

/-- The description of a field. -/
def describeField (r : Root) (f : Source.Field) : Except FailureCause FieldDescription :=
  if f.name ∈ reservedNames then .error (.unsupported (.accessorName f.name))
  else match shapeOf ⟨r.home, r.name⟩ r.scope f.type with
    | .ok shape => .ok ⟨f.name, shape⟩
    | .error reason => .error (.unresolvedType f.name (Token.textOfAll f.written) reason)

/-- The descriptions of fields, up to the first one that has none. -/
def describeFields (r : Root) : List Source.Field → Except FailureCause (List FieldDescription)
  | [] => .ok []
  | f :: rest => do
    let d ← describeField r f
    let ds ← describeFields r rest
    return d :: ds

/-- The first field that has the name of an awaiting mutator. -/
def mutatorCollision? (fields : List FieldDescription) : Option FieldDescription :=
  fields.find? fun f => fields.any fun other => other.awaitingMutator == f.name

/-- The descriptions of all fields, or what rules a wrapper out. -/
def describeBody (r : Root) : Except FailureCause (List FieldDescription) :=
  if r.declaration.generic then .error (.unsupported .generic)
  else match fieldsOf r.declaration.body with
    | .error gap => .error (.missingConstructor gap)
    | .ok fields => do
      let ds ← describeFields r fields
      match mutatorCollision? ds with
      | some f => .error (.unsupported (.mutatorName f.name))
      | none => return ds

/-- The description of a store root. -/
def describe (r : Root) : Except Failure StoreDescription :=
  match r.describeBody with
  | .ok fields =>
    .ok
      { origin := r.origin
        home := r.home
        root := r.name
        visibility := r.declaration.modifier.visibility
        fields }
  | .error cause => .error ⟨r.home, r.name, cause⟩

end Root

end ObservableStore
