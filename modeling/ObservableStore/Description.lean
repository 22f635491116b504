import ObservableStore.Origin
import ObservableStore.Shape
import ObservableStore.Visibility

/-!
# Store descriptions

What the generator knows about one store root: where it lives, what it is called, who can see it,
and the shapes of its fields in declaration order. A description is made once for a declaration and
read once when its wrapper is written.
-/

namespace ObservableStore

/-- One named field of a store root. -/
structure FieldDescription where
  name : String
  shape : Shape
deriving Repr, Inhabited

/-- Removes the marks `r#` in front of a name, all of them. -/
def stripRawMarks : List Char → List Char
  | 'r' :: '#' :: rest => stripRawMarks rest
  | cs => cs

/-- The name of the mutator of a field whose transform can wait: `count` gives `count_with`. -/
def awaitingMutatorName (field : String) : String :=
  String.ofList (stripRawMarks field.toList) ++ "_with"

/-- The description of one store root. -/
structure StoreDescription where
  origin : Origin
  /-- The namespace of the root, and of its wrapper. -/
  home : Namespace
  root : String
  visibility : Visibility
  /-- The fields in declaration order. -/
  fields : List FieldDescription
deriving Repr, Inhabited

namespace FieldDescription

/-- The name of the field's awaiting mutator. -/
def awaitingMutator (f : FieldDescription) : String :=
  awaitingMutatorName f.name

/-- The field as a JSON value. -/
def toJson (f : FieldDescription) : Json :=
  .object [("name", .text f.name), ("shape", f.shape.toJson)]

end FieldDescription

namespace StoreDescription

/-- The name of the wrapper type and of the unit that holds it. -/
def storeName (d : StoreDescription) : String :=
  d.root ++ "Store"

/-- The description as a JSON value. -/
def toJson (d : StoreDescription) : Json :=
  .object
    [("origin", d.origin.toJson),
     ("namespace", d.home.toJson),
     ("root_type_name", .text d.root),
     ("visibility", d.visibility.toJson),
     ("fields", .array (d.fields.map FieldDescription.toJson))]

end StoreDescription

end ObservableStore
