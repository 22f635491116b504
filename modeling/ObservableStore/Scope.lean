import ObservableStore.Prelude
import ObservableStore.Source.Item

/-!
# Scopes

The names that one module can see: the types and modules it declares and the paths it imports. A
scope turns a path that is written in the module into the namespace and name that it stands for.

A *strict* scope refuses a single name that it cannot account for. A *lenient* scope, which knows
nothing of the module, takes such names to be declared beside the root, and keeps paths whose
beginning it does not know as they are written.
-/

namespace ObservableStore

/-- A type by its namespace and its simple name. -/
structure TypeName where
  home : Namespace
  name : String
deriving DecidableEq, Repr, Inhabited

/-- Why a path stands for no type. -/
inductive ResolveError where
  | emptyPath
  /-- The path leaves the crate through its root. -/
  | aboveRoot (home : Namespace)
  /-- An absolute path that is just a name. -/
  | withoutModule (name : String)
  /-- More than one module is imported as a whole, and any of them may hold the name. -/
  | ambiguous (name : String) (globs : Nat)
  | undeclared (name : String) (home : Namespace)
deriving DecidableEq, Repr

/-- The wording of a failed resolution. -/
def ResolveError.message : ResolveError → String
  | .emptyPath => "empty path"
  | .aboveRoot home => "`super` above `" ++ home.toText ++ "`"
  | .withoutModule name => "`" ++ name ++ "` has no enclosing module"
  | .ambiguous name globs =>
    "ambiguous: `" ++ name ++ "` is not declared and " ++ toString globs
      ++ " glob imports are in scope"
  | .undeclared name home =>
    "`" ++ name ++ "` is not declared in `" ++ home.toText ++ "`, imported, or in the prelude"

/-- The names that a module can see. -/
structure Scope where
  /-- The module's own namespace. -/
  home : Namespace
  strict : Bool
  /-- The types that the module declares. -/
  types : List String
  /-- The modules that the module declares. -/
  modules : List String
  /-- The absolute path that each imported name stands for, the latest import first. -/
  imports : List (String × List String)
  /-- The modules that are imported as a whole, in order. -/
  globs : List Namespace
deriving Repr, Inhabited

namespace Scope

/-- A scope that knows nothing and takes unknown names to be declared in `home`. -/
def lenient (home : Namespace) : Scope := ⟨home, false, [], [], [], []⟩

/-- A scope that knows nothing and refuses unknown names. -/
def strictly (home : Namespace) : Scope := ⟨home, true, [], [], [], []⟩

/-! ## Absolute paths -/

/-- Goes up from a namespace once for every leading `super`, and then down the rest of the path.
`home` is where the path is written. -/
def ascend (home : Namespace) : Namespace → List String → Except ResolveError (List String)
  | ns, [] => .ok ns.segments
  | ns, s :: rest =>
    if s = "super" then
      match ns.parent? with
      | some up => ascend home up rest
      | none => .error (.aboveRoot home)
    else .ok (ns.segments ++ s :: rest)

/-- The absolute path that an import gives a name. -/
def imported? (s : Scope) (name : String) : Option (List String) :=
  s.imports.lookup name

/-- The absolute path that a path written in the module stands for. -/
def absolute (s : Scope) : List String → Except ResolveError (List String)
  | [] => .error .emptyPath
  | first :: rest =>
    if first = "crate" then .ok (first :: rest)
    else if first = "self" then .ok (s.home.segments ++ rest)
    else if first = "super" then ascend s.home s.home (first :: rest)
    else if first ∈ s.modules then .ok ((s.home.child first).segments ++ rest)
    else match s.imported? first with
      | some full => .ok (full ++ rest)
      | none => .ok (first :: rest)

/-! ## Growing a scope -/

/-- Adds a type that the module declares. -/
def addType (s : Scope) (name : String) : Scope :=
  { s with types := name :: s.types }

/-- Adds a module that the module declares. -/
def addModule (s : Scope) (name : String) : Scope :=
  { s with modules := name :: s.modules }

/-- Lets a name stand for a path written in the module. A path without an absolute one is left
out. -/
def addImport (s : Scope) (given : String) (path : List String) : Scope :=
  match s.absolute path with
  | .ok full => { s with imports := (given, full) :: s.imports }
  | .error _ => s

/-- Imports a module as a whole. A path without an absolute one is left out. -/
def addGlob (s : Scope) (path : List String) : Scope :=
  match s.absolute path with
  | .ok full => { s with globs := s.globs ++ [Namespace.ofSegments full] }
  | .error _ => s

mutual

/-- Adds the imports of a tree below a path. `self` in a tree stands for the path itself; an import
that is renamed to an underscore gives no name. -/
def addUse (s : Scope) (above : List String) : Source.UseTree → Scope
  | .path name tree => addUse s (above ++ [name]) tree
  | .name name =>
    if name = "self" then
      match above.getLast? with
      | some last => s.addImport last above
      | none => s
    else s.addImport name (above ++ [name])
  | .rename name given =>
    if given = "_" then s
    else s.addImport given (if name = "self" then above else above ++ [name])
  | .glob => s.addGlob above
  | .group trees => addUses s above trees

/-- Adds the imports of trees below a path, from left to right. -/
def addUses (s : Scope) (above : List String) : List Source.UseTree → Scope
  | [] => s
  | tree :: rest => addUses (addUse s above tree) above rest

end

/-- Adds what imports may go through: modules and external crates. -/
def addRoot (s : Scope) : Source.Item → Scope
  | .module name _ => s.addModule name
  | .externCrate name given =>
    let given := given.getD name
    if given = "_" then s else s.addImport given [name]
  | _ => s

/-- Adds the types that an item declares and the names that it imports. -/
def addItem (s : Scope) : Source.Item → Scope
  | .declaration d => s.addType d.name
  | .typeAlias name => s.addType name
  | .trait name => s.addType name
  | .use _ tree => s.addUse [] tree
  | _ => s

/-- The strict scope of a module with the given items. -/
def ofItems (home : Namespace) (items : List Source.Item) : Scope :=
  items.foldl addItem (items.foldl addRoot (strictly home))

/-! ## Resolution -/

/-- Takes the last segment for the name and the others for its namespace. -/
def split (segments : List String) : Except ResolveError TypeName :=
  match segments.getLast? with
  | none => .error .emptyPath
  | some name =>
    if segments.dropLast.isEmpty then .error (.withoutModule name)
    else .ok ⟨.ofSegments segments.dropLast, name⟩

/-- What a single name stands for: the module's own type, an import, a type of the prelude, a type
of the one module that is imported as a whole, or, in a lenient scope, a type of the module. -/
def resolveName (s : Scope) (name : String) : Except ResolveError TypeName :=
  if name ∈ s.types then .ok ⟨s.home, name⟩
  else match s.imported? name with
    | some full => split full
    | none =>
      match Prelude.home? name with
      | some ns => .ok ⟨ns, name⟩
      | none =>
        match s.globs with
        | [glob] => .ok ⟨glob, name⟩
        | globs =>
          if !s.strict then .ok ⟨s.home, name⟩
          else if globs.length > 1 then .error (.ambiguous name globs.length)
          else .error (.undeclared name s.home)

/-- Whether the scope can say where a path begins. -/
def knowsRoot (s : Scope) (first : String) : Bool :=
  Namespace.isRelativeWord first || decide (first ∈ s.modules) || (s.imported? first).isSome

/-- What a path stands for. A leading `::` makes it absolute. -/
def resolve (s : Scope) (p : Source.Path) : Except ResolveError TypeName :=
  if p.rooted then split p.names
  else match p.names with
    | [] => .error .emptyPath
    | [name] => s.resolveName name
    | first :: rest =>
      if !s.strict && !s.knowsRoot first then
        (split (first :: rest)).map fun t => { t with home := .ofWritten t.home.segments }
      else s.absolute (first :: rest) >>= split

end Scope

end ObservableStore
