import ObservableStore.Text.Split

/-!
# Locations in a file tree

A location is kept as it was written (`text`) and read as a list of components: the root, a leading
`.`, `..`, and names. Repeated and trailing slashes and a `.` after the first component do not
count, so two spellings of one list of components are the same place. What a location shows is its
text; what it means is its components. A slash or a `.` at its end still says something: it asks for
a directory (`asksForDirectory`).

Locations and the names in them are texts. Names of files whose bytes are no text are left out, so
the text that a name is shown as is always the name itself.
-/

namespace ObservableStore

/-- One component of a location. -/
inductive Component where
  /-- The leading slash of an absolute location. -/
  | root
  /-- A leading `.`. -/
  | here
  /-- The step `..` to the enclosing directory. -/
  | up
  /-- A file or directory name. -/
  | name (s : String)
deriving DecidableEq, Repr

namespace Component

/-- The component that a piece between slashes stands for, after the first one. -/
def ofPiece (p : List Char) : Option Component :=
  if p = [] ∨ p = ['.'] then none
  else if p = ['.', '.'] then some .up
  else some (.name (String.ofList p))

/-- A component as it is written. -/
def text : Component → String
  | .root => "/"
  | .here => "."
  | .up => ".."
  | .name s => s

end Component

/-- A place in a file tree, as written: a text, and the names in it are texts. -/
structure Location where
  text : String
deriving DecidableEq, Repr, Inhabited

namespace Location

/-- Whether a location starts at the root. -/
def isAbsolute (l : Location) : Bool :=
  l.text.toList.head? == some '/'

/-- The components of a written location. -/
def componentsOf (cs : List Char) : List Component :=
  match Text.splitAtChar '/' cs with
  | [] => []
  | first :: rest =>
    (if cs.head? = some '/' then [.root]
      else if first = ['.'] then [.here]
      else (Component.ofPiece first).toList) ++ rest.filterMap Component.ofPiece

/-- The components of a location. -/
def components (l : Location) : List Component :=
  componentsOf l.text.toList

/-- Whether a location ends in a slash. -/
def endsInSlash (l : Location) : Bool :=
  l.text.toList.getLast? == some '/'

/-- Whether a location ends in a `.` behind a slash, whatever slashes follow. That `.` is no
component. -/
def endsInDot (l : Location) : Bool :=
  ['.', '/'].isPrefixOf (l.text.toList.reverse.dropWhile (· == '/'))

/-- Whether the end of a location says that it can only be a directory. -/
def asksForDirectory (l : Location) : Bool :=
  l.endsInSlash || l.endsInDot

theorem asksForDirectory_eq_false {l : Location} :
    l.asksForDirectory = false ↔ l.endsInSlash = false ∧ l.endsInDot = false :=
  Bool.or_eq_false_iff

/-- The location written `segment`, seen from `l`: an absolute segment stands for itself. -/
def push (l : Location) (segment : String) : Location :=
  if segment.toList.head? = some '/' then ⟨segment⟩
  else if l.text.isEmpty || l.endsInSlash then ⟨l.text ++ segment⟩
  else ⟨l.text ++ "/" ++ segment⟩

/-- The location `m`, seen from `l`. -/
def join (l m : Location) : Location :=
  l.push m.text

/-- The location reached by a list of segments. -/
def ofSegments (segments : List String) : Location :=
  segments.foldl push ⟨""⟩

/-- The location written with the given components. -/
def ofComponents (cs : List Component) : Location :=
  ofSegments (cs.map Component.text)

/-! ## Names and their parts -/

/-- The last component, if it is a name. -/
def fileNameOf (cs : List Component) : Option String :=
  match cs.getLast? with
  | some (.name s) => some s
  | _ => none

/-- Cuts a file name at its last dot, unless that dot is the first character. -/
def splitName (s : String) : List Char × Option (List Char) :=
  let reversed := s.toList.reverse
  let ext := reversed.takeWhile (· ≠ '.')
  match reversed.dropWhile (· ≠ '.') with
  | [] => (s.toList, none)
  | [_] => (s.toList, none)
  | _ :: stem => (stem.reverse, some ext.reverse)

/-- A file name up to its last dot. -/
def stemOf (name : String) : String :=
  String.ofList (splitName name).1

/-- What follows the last dot of a file name. -/
def extensionOf (name : String) : Option String :=
  (splitName name).2.map String.ofList

/-- The extension of the file that a location names. -/
def extension (l : Location) : Option String :=
  (fileNameOf l.components).bind extensionOf

/-! ## Places -/

/-- Where a component leads from a place that is given by the names from the outermost directory on.
There is nothing above that one. -/
def lead (place : List String) : Component → List String
  | .root => []
  | .here => place
  | .up => place.dropLast
  | .name n => place ++ [n]

/-- The place that components lead to from the outermost directory. -/
def resolve (cs : List Component) : List String := cs.foldl lead []

/-- The place of an absolute location, its `.` and `..` resolved. -/
def resolved (l : Location) : List String := resolve l.components

/-! ## Containment -/

/-- Whether a location lies at or below another, component by component. -/
def startsWith (l base : Location) : Bool :=
  base.components.isPrefixOf l.components

/-- Whether two locations have the same components. -/
def same (l m : Location) : Bool :=
  l.components == m.components

end Location

end ObservableStore
