import ObservableStore.CommandLine.Run

/-!
# The program

Reads the files below the working directory, runs the command on them, and writes back the files
that the command changed. Everything else is the command's own (`CommandLine.run`).
-/

namespace ObservableStore.Main

/-- How deep directories may nest. -/
def depthLimit : Nat := 64

/-- What bytes say, if they are text. -/
def contentsOf (bytes : ByteArray) : Contents :=
  match String.fromUTF8? bytes with
  | some s => .text s
  | none => .binary bytes.toList

/-- Reads directory entries, each to a depth. -/
def entriesOf (entry : IO.FS.DirEntry → IO FileTree) (found : Array IO.FS.DirEntry) :
    IO (List (String × FileTree)) :=
  found.toList.mapM fun e => do return (e.fileName, ← entry e)

/-- Reads what lies at a directory entry, to a depth. -/
def treeOf : Nat → IO.FS.DirEntry → IO FileTree
  | 0, _ => return .empty
  | depth + 1, e => do
    if ← e.path.isDir then
      return .directory (← entriesOf (treeOf depth) (← e.path.readDir))
    else
      return .file (contentsOf (← IO.FS.readBinFile e.path))

/-- Reads the working directory. -/
def readTree : IO FileTree := do
  let here ← IO.currentDir
  return .directory (← entriesOf (treeOf depthLimit) (← here.readDir))

/-- Whether a tree has a file with the given contents at a position. -/
def holds (t : FileTree) (position : List String) (contents : Contents) : Bool :=
  match t.find? position with
  | some (.file c) => c == contents
  | _ => false

/-- Writes the files of a tree that differ from those of another one. -/
def writeChanges (before after : FileTree) : IO Unit := do
  let here ← IO.currentDir
  for (position, contents) in after.files do
    unless holds before position contents do
      let place := position.foldl (fun p name => p / name) here
      if let some parent := place.parent then
        IO.FS.createDirAll parent
      if let .text s := contents then
        IO.FS.writeFile place s

end ObservableStore.Main

/-- Runs the command that the arguments name. -/
def main (arguments : List String) : IO UInt32 := do
  let before ← ObservableStore.Main.readTree
  let outcome := ObservableStore.CommandLine.run arguments before
  ObservableStore.Main.writeChanges before outcome.tree
  IO.print outcome.output
  return outcome.status.toUInt32
