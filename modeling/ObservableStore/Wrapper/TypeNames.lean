import ObservableStore.Description

/-!
# Names of types in generated code

A wrapper is either spliced into the module that declares its root (`inline`) or put into a file of
its own below that module (`module`). In the first case types of the same module are written by
their simple names; in the second case a type is written by its simple name when the file imports
it, and each simple name is imported from one namespace only: the root's own, or the least one that
the fields refer to. Types of the prelude always have their simple names. All other types are
written as full paths.
-/

namespace ObservableStore

/-- Where generated code is put. -/
inductive Layout where
  /-- Into the module that declares the root. -/
  | inline
  /-- Into a file that is a child of that module. -/
  | module
deriving DecidableEq, Repr

/-- An imported type: the namespace it comes from and its simple name. -/
abbrev Import := Namespace × String

namespace Import

/-- Compares imports by namespace and then by name. -/
def compare (a b : Import) : Ordering :=
  (Namespace.compare a.1 b.1).then (Ord.compare a.2 b.2)

/-- Whether `a` comes no later than `b`. -/
def le (a b : Import) : Bool := (compare a b).isLE

/-- The import as a path. -/
def text (i : Import) : String := i.1.qualify i.2

end Import

/-- A type as it is written in generated code. -/
inductive WrittenType where
  /-- A type by its simple name. -/
  | simple (name : String) (arguments : List WrittenType)
  /-- A type by the path to it. -/
  | qualified (home : Namespace) (name : String) (arguments : List WrittenType)

/-- The text of a written type. -/
def WrittenType.text : WrittenType → String
  | .simple name args => name ++ Shape.bracketed (args.map text)
  | .qualified home name args => home.qualify name ++ Shape.bracketed (args.map text)

namespace StoreDescription

/-- All types in the fields, at any depth. -/
def shapes (d : StoreDescription) : List Shape :=
  d.fields.flatMap fun f => f.shape.walk

/-- The types in the fields that cannot be named without an import, in order. -/
def references (d : StoreDescription) : List Import :=
  (((d.shapes.filter fun s => !s.isPrelude).map fun s => (s.home, s.name)).mergeSort Import.le)

/-- Adds an import unless its name is imported already. -/
def addImport (found : List Import) (i : Import) : List Import :=
  if found.any (·.2 == i.2) then found else found ++ [i]

/-- The imports of a file below the root's module, sorted: the root, and for every other simple name
the first of the types with that name. -/
def imports (d : StoreDescription) : List Import :=
  (d.references.foldl addImport [(d.home, d.root)]).mergeSort Import.le

/-- Whether a type is written by its simple name. -/
def nameable (d : StoreDescription) (layout : Layout) (home : Namespace) (name : String) : Bool :=
  Prelude.covers home name ||
    match layout with
    | .inline => home == d.home
    | .module => d.imports.contains (home, name)

/-- A type as it is written in generated code. -/
def written (d : StoreDescription) (layout : Layout) : Shape → WrittenType
  | .mk home name args =>
    if d.nameable layout home name then .simple name (args.map (written d layout))
    else .qualified home name (args.map (written d layout))

end StoreDescription

end ObservableStore
