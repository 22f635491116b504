import ObservableStore.Root
import ObservableStore.Source.File

/-!
# Discovery of store roots

A source file defines one module, whose namespace follows from the file's place below the source
directory. Its store roots are the declarations with a marker among their attributes, in the file's
own module and in modules written inside it, in source order. Each has the scope of the innermost
module around it and nothing else.
-/

namespace ObservableStore

/-- The name of the marker where none is given. -/
def defaultMarker : String := "flow_store"

/-! ## Namespaces of files -/

namespace Location

/-- The components of a file below a root, or all of them when it is not below the root. -/
def below (root file : Location) : List Component :=
  if file.startsWith root then file.components.drop root.components.length else file.components

end Location

/-- The namespace of the module that a file defines: `lib.rs` and `main.rs` at the root are the
crate, and `ui/mod.rs` and `ui.rs` are both `crate::ui`. The segments are the names of directories and
the stem of the file as they stand, since all of them are texts. -/
def moduleNamespace (root file : Location) : Namespace :=
  let relative := Location.below root file
  let parent := relative.dropLast.foldl (fun ns c => ns.child c.text) Namespace.crateRoot
  let stem := ((Location.fileNameOf relative).map Location.stemOf).getD ""
  if stem = "mod" then parent
  else if parent = Namespace.crateRoot ∧ (stem = "lib" ∨ stem = "main") then parent
  else parent.child stem

/-! ## Marked declarations -/

/-- Whether one of the attributes is a path that ends in the marker. -/
def isMarked (marker : String) (attributes : List Source.Attribute) : Bool :=
  attributes.any fun a => a.path.names.getLast? == some marker

mutual

/-- The marked declarations of an item of a module with a namespace and a scope. -/
def rootsOfItem (marker : String) (origin : Origin) (home : Namespace) (scope : Scope) :
    Source.Item → List Root
  | .declaration d => if isMarked marker d.attributes then [⟨d.reprinted, scope, origin⟩] else []
  | .module name (some items) =>
    rootsOfItems marker origin (home.child name) (.ofItems (home.child name) items) items
  | _ => []

/-- The marked declarations of items of a module with a namespace and a scope. -/
def rootsOfItems (marker : String) (origin : Origin) (home : Namespace) (scope : Scope) :
    List Source.Item → List Root
  | [] => []
  | item :: rest =>
    rootsOfItem marker origin home scope item ++ rootsOfItems marker origin home scope rest

end

/-- The marked declarations of a module. -/
def rootsOfModule (marker : String) (origin : Origin) (home : Namespace)
    (items : List Source.Item) : List Root :=
  rootsOfItems marker origin home (.ofItems home items) items

/-! ## Source files -/

/-- Why a source file or a source directory gives no declarations. -/
inductive SourceError where
  | missingDirectory (path : Location)
  | unreadable (path : Location) (fault : FileFault)
  | malformed (path : Location)
deriving DecidableEq, Repr

/-- The wording of an error of a source. -/
def SourceError.message : SourceError → String
  | .missingDirectory path => "Source directory does not exist: " ++ path.text
  | .unreadable path fault => "Failed to read " ++ path.text ++ ": " ++ fault.message
  | .malformed path => "Failed to parse " ++ path.text

/-- A source file and the namespace of the module that it defines. -/
structure SourceFile where
  path : Location
  home : Namespace
  text : String
deriving DecidableEq, Repr

/-- The marked declarations of a source file. -/
def SourceFile.roots (f : SourceFile) (marker : String) : Except SourceError (List Root) :=
  match Source.itemsOfText f.text with
  | some items => .ok (rootsOfModule marker (.ofSource f.path f.text) f.home items)
  | none => .error (.malformed f.path)

end ObservableStore
