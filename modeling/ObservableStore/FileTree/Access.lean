import ObservableStore.FileTree.Basic
import ObservableStore.FileTree.Fault
import ObservableStore.Location

/-!
# Reading and writing a file tree

A location is followed step by step from the root of the tree: every step but the last must lead to
a directory that is there. A name has at most 255 bytes, and a location at most 4095. What else can
fail depends on the files and directories that are there; a tree has neither links nor permissions.

A location may lead out of the tree, up through its root or to the outermost directory. Nothing is
known of what lies there until something is written there, so the directories on the way out count
as empty.
-/

namespace ObservableStore

namespace FileTree

/-! ## Limits -/

/-- Whether a name has more bytes than an entry of a directory may have. -/
def isLongName (n : String) : Bool :=
  255 < n.utf8ByteSize

/-- Why a location cannot even be tried: it is empty, holds a null character or is too long. -/
def refusal? (l : Location) : Option FileFault :=
  if l.text.isEmpty then some .notFound
  else if l.text.toList.contains (Char.ofNat 0) then some .invalidName
  else if 4095 < l.text.utf8ByteSize then some .nameTooLong
  else none

/-! ## Following a location -/

/-- What is seen at a position: what lies there, or an empty directory on the way out of the tree. -/
def seen? (t : FileTree) (p : List String) : Option FileTree :=
  match t.find? p with
  | some u => some u
  | none => if isOutward p then some empty else none

/-- Takes one step from a position. -/
def step (t : FileTree) (base : List String) (c : Component) : Except FileFault (List String) :=
  match t.seen? base with
  | none => .error .notFound
  | some (.file _) => .error .notADirectory
  | some (.directory entries) =>
    match c with
    | .root => .ok [outermost]
    | .here => .ok base
    | .up => .ok (enclosing base)
    | .name n =>
      if isLongName n then .error .nameTooLong
      else if (entries.lookup n).isSome then .ok (base ++ [n])
      else .error .notFound

/-- Follows components from a position. -/
def follow (t : FileTree) (base : List String) : List Component → Except FileFault (List String)
  | [] => .ok base
  | c :: rest => do
    let next ← t.step base c
    t.follow next rest

/-- The position that a location leads to. A slash or a `.` at its end asks for a directory. -/
def position (t : FileTree) (l : Location) : Except FileFault (List String) :=
  match refusal? l with
  | some fault => .error fault
  | none => do
    let p ← t.follow [] l.components
    if l.asksForDirectory && !(t.seen? p).any isDirectory then .error .notADirectory else .ok p

/-- What a location leads to. -/
def at? (t : FileTree) (l : Location) : Option FileTree :=
  match t.position l with
  | .ok p => t.seen? p
  | .error _ => none

/-- Whether a location leads to a directory. -/
def isDirectoryAt (t : FileTree) (l : Location) : Bool :=
  (t.at? l).any isDirectory

/-- Whether components lead to a directory. -/
def reachesDirectory (t : FileTree) (cs : List Component) : Bool :=
  match t.follow [] cs with
  | .ok p => (t.seen? p).any isDirectory
  | .error _ => false

/-! ## Reading -/

/-- The text of the file that a location leads to. -/
def readText (t : FileTree) (l : Location) : Except FileFault String := do
  let p ← t.position l
  match t.seen? p with
  | some (.file (.text s)) => .ok s
  | some (.file (.binary _)) => .error .notText
  | some (.directory _) => .error .isADirectory
  | none => .error .notFound

/-! ## Making directories -/

/-- Makes the directory that components lead to. -/
def makeDirectory (t : FileTree) (cs : List Component) : Except FileFault FileTree :=
  match refusal? (.ofComponents cs), cs.getLast? with
  | some fault, _ => .error fault
  | none, some (.name n) => do
    let p ← t.follow [] cs.dropLast
    match t.seen? p with
    | some (.directory entries) =>
      if isLongName n then .error .nameTooLong
      else if (entries.lookup n).isSome then .error .alreadyThere
      else .ok (t.put (p ++ [n]) empty)
    | some (.file _) => .error .notADirectory
    | none => .error .notFound
  | none, _ => do
    let _ ← t.follow [] cs
    .error .alreadyThere

/-- Makes a directory and those around it, given its components from the last one on. A directory
that is there already will do. What was made before a fault stays. -/
def makeDirectories (t : FileTree) : List Component → Option FileFault × FileTree
  | [] => (none, t)
  | c :: above =>
    let cs := (c :: above).reverse
    match t.makeDirectory cs with
    | .ok t' => (none, t')
    | .error .notFound =>
      match t.makeDirectories above with
      | (some e, t') => (some e, t')
      | (none, t') =>
        match t'.makeDirectory cs with
        | .ok t'' => (none, t'')
        | .error e => (if t'.reachesDirectory cs then none else some e, t')
    | .error e => (if t.reachesDirectory cs then none else some e, t)

/-- Makes the directory that a location leads to and those around it. A `.` at its end is looked up in
a directory that must be there already, so only those around that one are made. -/
def makeDirectoriesAt (t : FileTree) (l : Location) : Option FileFault × FileTree :=
  if l.endsInDot then
    match t.position l with
    | .ok _ => (none, t)
    | .error .notFound =>
      match t.makeDirectories l.components.dropLast.reverse with
      | (some e, t') => (some e, t')
      | (none, t') =>
        match t'.position l with
        | .ok _ => (none, t')
        | .error e => (some e, t')
    | .error e => (some e, t)
  else t.makeDirectories l.components.reverse

/-! ## Writing -/

/-- Puts a text into the file that a location leads to; its directory must be there. Behind a `.` at
the end there is no file, only the directory that the `.` is looked up in. -/
def writeText (t : FileTree) (l : Location) (s : String) : Except FileFault FileTree :=
  match refusal? l with
  | some fault => .error fault
  | none =>
    if l.endsInDot then do
      let _ ← t.position l
      .error .isADirectory
    else do
      let p ← t.follow [] l.components.dropLast
      match t.seen? p, l.components.getLast? with
      | some (.directory entries), some (.name n) =>
        if l.endsInSlash || (entries.lookup n).any isDirectory then .error .isADirectory
        else if isLongName n then .error .nameTooLong
        else .ok (t.put (p ++ [n]) (.file (.text s)))
      | some (.file _), _ => .error .notADirectory
      | _, _ => .error .isADirectory

/-- Puts a text into the file that a location leads to, and makes the directories around it. -/
def store (t : FileTree) (l : Location) (s : String) : Option FileFault × FileTree :=
  match t.makeDirectories l.components.dropLast.reverse with
  | (some e, t') => (some e, t')
  | (none, t') =>
    match t'.writeText l s with
    | .ok t'' => (none, t'')
    | .error e => (some e, t')

end FileTree

end ObservableStore
