import ObservableStore.Namespace

/-!
# The prelude

Types that every module can name without an import: the primitives and five names of the standard
prelude, each with the namespace it stands for when nothing in the module shadows it.
-/

namespace ObservableStore

namespace Prelude

/-- The primitive types. -/
def primitives : List String :=
  ["bool", "char", "str", "i8", "i16", "i32", "i64", "i128", "isize", "u8", "u16", "u32", "u64",
    "u128", "usize", "f32", "f64"]

/-- The namespace of the primitive types. -/
def primitiveNamespace : Namespace := .ofSegments ["core", "primitive"]

/-- The namespace that a name stands for when nothing shadows it. -/
def home? (name : String) : Option Namespace :=
  if name ∈ primitives then some primitiveNamespace
  else match name with
    | "String" => some (.ofSegments ["std", "string"])
    | "Vec" => some (.ofSegments ["std", "vec"])
    | "Option" => some (.ofSegments ["std", "option"])
    | "Result" => some (.ofSegments ["std", "result"])
    | "Box" => some (.ofSegments ["std", "boxed"])
    | _ => none

/-- Whether `name` of namespace `ns` can be named everywhere without an import. -/
def covers (ns : Namespace) (name : String) : Bool :=
  home? name == some ns

theorem covers_iff {ns : Namespace} {name : String} :
    covers ns name = true ↔ home? name = some ns := by
  simp [covers]

end Prelude

end ObservableStore
