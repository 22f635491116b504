import ObservableStore.Batch

/-!
# Watching source directories

A change of a source file asks for a new batch. What the batch itself writes must not: events below
the output root are left out, in whatever way an event spells that root. A file tree has no links, so
these spellings differ in how they begin and in `.` and `..` only.
-/

namespace ObservableStore

namespace Watch

/-- The kinds of events. -/
inductive EventKind where
  | any
  | other
  | access
  | create
  | modify
  | remove
deriving DecidableEq, Repr

/-- Whether events of a kind can change a source file. -/
def EventKind.changes : EventKind → Bool
  | .create | .modify | .remove => true
  | _ => false

/-- An event with the locations that it is about. -/
structure Event where
  kind : EventKind
  paths : List Location
deriving DecidableEq, Repr

/-- The source file that an event changes: the first of its locations, unless that is no source file
or lies below an output root. -/
def change? (roots : List Location) (e : Event) : Option Location :=
  if e.kind.changes then
    match e.paths with
    | [] => none
    | path :: _ =>
      if path.extension = some "rs" && !roots.any path.startsWith then some path else none
  else none

/-! ## Spellings of the output root -/

/-- The place where a file tree lies. -/
structure WorkingDirectory where
  location : Location
  tree : FileTree

/-- A location without a leading `.`. -/
def withoutHere : List Component → List Component
  | .here :: rest => rest
  | cs => cs

/-- The slash that a location ends in, if it does. -/
def finalSlash (l : Location) (found : Location) : Location :=
  if l.endsInSlash then found.push "" else found

/-- The location seen from the root, `..` kept as it is. Two leading slashes are kept as well. -/
def absolute? (w : WorkingDirectory) (l : Location) : Option Location :=
  if l.text.isEmpty then none
  else
    let cs := l.components
    if l.isAbsolute then
      let doubled := match l.text.toList with
        | '/' :: '/' :: '/' :: _ => false
        | '/' :: '/' :: _ => true
        | _ => false
      if doubled then
        some (finalSlash l (((cs.drop 1).map Component.text).foldl Location.push ⟨"//"⟩))
      else some (finalSlash l (.ofComponents cs))
    else some (finalSlash l (((withoutHere cs).map Component.text).foldl Location.push w.location))

namespace WorkingDirectory

/-- The position of a place around the tree: up to the first directory that leads there, and down. -/
def wayTo (w : WorkingDirectory) (place : List String) : List String :=
  let home := w.location.resolved
  let shared := ((place.zip home).takeWhile fun x => x.1 == x.2).length
  List.replicate (home.length - shared) FileTree.around ++ place.drop shared

/-- What lies at a place: in the working directory what the tree has there, above it a directory, and
elsewhere what the tree keeps of its surroundings. -/
def seenAt? (w : WorkingDirectory) (place : List String) : Option FileTree :=
  let home := w.location.resolved
  if home.isPrefixOf place then w.tree.find? (place.drop home.length)
  else if place.isPrefixOf home then some .empty
  else (w.tree.find? (FileTree.outermost :: place)).or (w.tree.find? (w.wayTo place))

/-- Whether a directory lies at a place. -/
def isDirectoryAt (w : WorkingDirectory) (place : List String) : Bool :=
  (w.seenAt? place).any FileTree.isDirectory

/-- Follows components from a place, as long as something lies where they lead. -/
def walk? (w : WorkingDirectory) (place : List String) : List Component → Option (List String)
  | [] => some place
  | c :: rest =>
    let next := Location.lead place c
    if w.isDirectoryAt place && (w.seenAt? next).isSome && !next.any FileTree.isLongName then
      w.walk? next rest
    else none

end WorkingDirectory

/-- The location without `.` and `..`, if something lies there. -/
def canonical? (w : WorkingDirectory) (l : Location) : Option Location :=
  match FileTree.refusal? l, w.walk? w.location.resolved l.components with
  | none, some place =>
    if l.asksForDirectory && !w.isDirectoryAt place then none
    else some (.ofComponents (.root :: place.map .name))
  | _, _ => none

/-- Leaves out a location that is the same as the one before it. -/
def dedup : List Location → List Location
  | [] => []
  | l :: rest =>
    match dedup rest with
    | [] => [l]
    | m :: more => if l.same m then l :: more else l :: m :: more

/-- The spellings of an output root that events may use: as given, absolute, and without `.` and
`..` when it is there. -/
def outputRoots (w : WorkingDirectory) (directory : Location) : List Location :=
  dedup (directory :: ((absolute? w directory).toList ++ (canonical? w directory).toList))

/-! ## Starting -/

/-- Whether something lies where a source directory should be; an empty location is the working
directory. -/
def isThere (t : FileTree) (l : Location) : Bool :=
  l.text.isEmpty || (t.at? l).isSome

/-- Makes the output root and starts watching; the file tree, and whether all source directories are
there. -/
def start (g : Generator) (environment : Option String) (t : FileTree) : FileTree × Bool :=
  let t' := match g.outputRoot? environment with
    | some root => (t.makeDirectoriesAt root).2
    | none => t
  (t', g.sourceDirectories.all (isThere t'))

end Watch

end ObservableStore
