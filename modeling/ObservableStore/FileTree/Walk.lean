import ObservableStore.FileTree.Access

/-!
# Walking a file tree

A walk visits the files below a directory depth first, the entries of each directory in the order of
their names, whatever order the directory holds them in. There are no links to follow.
-/

namespace ObservableStore

namespace FileTree

/-- Whether an entry comes no later than another one by its name. -/
def nameLe {α : Type} (a b : String × α) : Bool :=
  (compare a.1 b.1).isLE

/-- A position with a name in front. -/
def under (name : String) (found : List String × Contents) : List String × Contents :=
  (name :: found.1, found.2)

mutual

/-- The files of a tree with their positions, in the order of a walk. What lies around the tree is
not visited. -/
def files : FileTree → List (List String × Contents)
  | .file c => [([], c)]
  | .directory entries =>
    ((filesOfEntries entries).mergeSort nameLe).flatMap fun e => e.2.map (under e.1)

/-- The files of each entry, by the name of the entry. -/
def filesOfEntries :
    List (String × FileTree) → List (String × List (List String × Contents))
  | [] => []
  | (name, t) :: rest =>
    if name = around ∨ name = outermost then filesOfEntries rest
    else (name, files t) :: filesOfEntries rest

end

/-- The location of a position below a directory. -/
def locate (l : Location) (position : List String) : Location :=
  position.foldl Location.push l

/-- The files below a directory that have an extension, in the order of a walk. -/
def filesWithExtension (t : FileTree) (l : Location) (extension : String) :
    Option (List Location) :=
  match t.at? l with
  | some (.directory entries) =>
    let found := (files (.directory entries)).filter fun f =>
      (f.1.getLast?.bind Location.extensionOf) == some extension
    some (found.map fun f => locate l f.1)
  | _ => none

end FileTree

end ObservableStore
