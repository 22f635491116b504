import ObservableStore.Text.SnakeCase
import ObservableStore.Wrapper.Code
import ObservableStore.Wrapper.TypeNames

/-!
# Wrappers

The wrapper of a store root is a type that holds an observable state of the root. It has an accessor
for the view of the state and, for every field, two mutators: one whose transform gives the new
value at once, and one whose transform can wait. A mutator reads the state, transforms its field in
what it has read, and publishes the result.

The wrapper is described first (`Wrapper`) and written afterwards (`Wrapper.code`). What is written
depends on the description of the root and on the options only.
-/

namespace ObservableStore

/-- How wrappers are written. -/
structure EmitOptions where
  /-- The path of the crate that holds the observable state. -/
  runtimePath : String
  layout : Layout
deriving DecidableEq, Repr

/-- The path of the runtime crate where none is given. -/
def defaultRuntimePath : String := "::flowstore"

/-- Options for code in the module that declares the root. -/
def EmitOptions.inline : EmitOptions := ⟨defaultRuntimePath, .inline⟩

/-- Options for code in a file of its own. -/
def EmitOptions.module : EmitOptions := ⟨defaultRuntimePath, .module⟩

/-- A mutator of a wrapper. -/
structure Mutator where
  field : String
  /-- Whether its transform can wait. -/
  awaiting : Bool
  /-- The type of the field. -/
  type : WrittenType

/-- The name of a mutator. -/
def Mutator.name (m : Mutator) : String :=
  if m.awaiting then awaitingMutatorName m.field else m.field

/-- The wrapper of a store root. -/
structure Wrapper where
  home : Namespace
  root : String
  /-- The name of the wrapper. -/
  name : String
  layout : Layout
  /-- The visibility modifier with a blank behind it, or nothing. -/
  modifier : String
  /-- The path of the runtime crate. -/
  runtime : String
  /-- The imports of a file of its own. -/
  imports : List Import
  /-- The mutators, two for each field, in the order of the fields. -/
  mutators : List Mutator
  /-- Whether a mutator has other fields to keep. -/
  keepsOthers : Bool

namespace Wrapper

/-- The name of the accessor for the view of the state. -/
def accessor : String := "flow"

/-- The names of the wrapper's methods, in order. -/
def methodNames (w : Wrapper) : List String :=
  accessor :: w.mutators.map Mutator.name

/-- Leaves out the pairs of colons in front. -/
def dropSeparators : List Char → List Char
  | ':' :: ':' :: rest => dropSeparators rest
  | cs => cs

/-- A path without the pairs of colons at its end. -/
def trimmedRuntime (path : String) : String :=
  String.ofList (dropSeparators path.toList.reverse).reverse

/-- The two mutators of a field. -/
def mutatorsOf (d : StoreDescription) (layout : Layout) (f : FieldDescription) : List Mutator :=
  let type := d.written layout f.shape
  [⟨f.name, false, type⟩, ⟨f.name, true, type⟩]

/-- The wrapper of the root with a description. -/
def ofDescription (d : StoreDescription) (o : EmitOptions) : Wrapper where
  home := d.home
  root := d.root
  name := d.storeName
  layout := o.layout
  modifier := match o.layout with
    | .inline => d.visibility.inlineModifier
    | .module => d.visibility.childModifier
  runtime := trimmedRuntime o.runtimePath
  imports := match o.layout with
    | .inline => []
    | .module => d.imports
  mutators := d.fields.flatMap (mutatorsOf d o.layout)
  keepsOthers := decide (d.fields.length > 1)

/-! ## Code -/

/-- What a file of its own begins with. -/
def header (w : Wrapper) : List Code :=
  match w.layout with
  | .inline => []
  | .module =>
    let root := String.ofList (dropSeparators (w.home.qualify w.root).toList)
    [.line ("// @generated by flowstore from `" ++ root ++ "`. Do not edit."), .blank]
      ++ w.imports.map (fun i => .line ("use " ++ i.text ++ ";")) ++ [.blank]

/-- The wrapper's type. -/
def typeCode (w : Wrapper) : List Code :=
  [.line ("/// Observable store for [`" ++ w.root ++ "`]."),
    .line "///",
    .line ("/// Every field of `" ++ w.root ++ "` has an async mutator of the same name."),
    .braced (w.modifier ++ "struct " ++ w.name)
      [.line ("flow: " ++ w.runtime ++ "::MutableStateFlow<" ++ w.root ++ ">,")],
    .blank]

/-- The accessor. -/
def accessorCode (w : Wrapper) : List Code :=
  [.line "/// Read-only view of the current and future states",
    .braced ("pub fn flow(&self) -> " ++ w.runtime ++ "::StateFlow<" ++ w.root ++ ">")
      [.line "self.flow.as_state_flow()"]]

/-- The body of a mutator: read, replace one field, publish. -/
def updateCode (w : Wrapper) (m : Mutator) : List Code :=
  [.line "let old_state = self.flow.value();",
    .line ("let old_value = old_state." ++ m.field ++ ";"),
    .line ("let new_value = transform(old_value)" ++ (if m.awaiting then ".await" else "") ++ ";"),
    .block ("let new_state = " ++ w.root ++ " \x7b")
      ([.line (m.field ++ ": new_value,")] ++ if w.keepsOthers then [.line "..old_state"] else [])
      "\x7d;",
    .line "self.flow.emit(new_state).await;"]

/-- A mutator. -/
def mutatorCode (w : Wrapper) (m : Mutator) : List Code :=
  let type := m.type.text
  if m.awaiting then
    [.blank,
      .line ("/// Like [`Self::" ++ m.field ++ "`], with a transform that can await"),
      .line ("pub async fn " ++ m.name ++ "<F>(&self, transform: impl ::core::ops::FnOnce(" ++ type
        ++ ") -> F)"),
      .line "where",
      .line ("    F: ::core::future::Future<Output = " ++ type ++ ">,"),
      .block "\x7b" (w.updateCode m) "\x7d"]
  else
    [.blank,
      .line ("/// Replace `" ++ m.field ++ "` with `transform(" ++ m.field
        ++ ")` and publish the resulting state"),
      .braced ("pub async fn " ++ m.name ++ "(&self, transform: impl ::core::ops::FnOnce(" ++ type
        ++ ") -> " ++ type ++ ")") (w.updateCode m)]

/-- The wrapper's methods. -/
def methodsCode (w : Wrapper) : List Code :=
  [.braced ("impl " ++ w.name) (w.accessorCode ++ w.mutators.flatMap w.mutatorCode), .blank]

/-- The ways to make a wrapper. -/
def constructorCode (w : Wrapper) : List Code :=
  [.braced ("impl " ++ w.root)
      [.line ("/// Wrap this state in a new [`" ++ w.name ++ "`]"),
        .braced ("pub fn into_store(self) -> " ++ w.name)
          [.line "::core::convert::From::from(self)"]],
    .blank,
    .braced ("impl ::core::convert::From<" ++ w.root ++ "> for " ++ w.name)
      [.braced ("fn from(state: " ++ w.root ++ ") -> Self")
        [.braced "Self" [.line ("flow: " ++ w.runtime ++ "::MutableStateFlow::new(state),")]]]]

/-- The wrapper's code. -/
def code (w : Wrapper) : List Code :=
  w.header ++ w.typeCode ++ w.methodsCode ++ w.constructorCode

end Wrapper

end ObservableStore
