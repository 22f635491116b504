import ObservableStore.Batch
import ObservableStore.Toml.Document

/-!
# Configuration

The settings of a batch as a configuration file gives them. The file's table `generator` holds them
by name; what it leaves out has a standard value, and names it does not know are left alone. The
settings may also be an array of values in a fixed order.
-/

namespace ObservableStore

/-- The settings of a batch. -/
structure Config where
  sourceDirectories : List Location
  outputDirectory : Location
  runtimePath : String
  marker : String
deriving DecidableEq, Repr, Inhabited

namespace Config

/-- The settings where none are given. -/
def standard : Config := ⟨[⟨"src"⟩], ⟨"target/flowstore"⟩, defaultRuntimePath, defaultMarker⟩

/-- The batch that has the settings. -/
def generator (c : Config) : Generator :=
  ⟨c.sourceDirectories, some c.outputDirectory, c.runtimePath, c.marker⟩

/-! ## Reading settings -/

/-- A text. -/
def textOf : Toml.Value → Option String
  | .text s => some s
  | _ => none

/-- An array of texts. -/
def textsOf : Toml.Value → Option (List String)
  | .array items => items.mapM textOf
  | _ => none

/-- The setting that a value gives, or the standard one where there is no value. -/
def setting {α : Type} (read : Toml.Value → Option α) (standard : α) :
    Option Toml.Value → Option α
  | some v => read v
  | none => some standard

/-- The settings given by the values of the source directories, the output directory, the path of
the runtime and the marker. -/
def ofValues (sources output runtimePath marker : Option Toml.Value) : Option Config := do
  return {
    sourceDirectories :=
      ← setting (fun v => (textsOf v).map (·.map Location.mk)) standard.sourceDirectories sources
    outputDirectory := ← setting (fun v => (textOf v).map Location.mk) standard.outputDirectory output
    runtimePath := ← setting textOf standard.runtimePath runtimePath
    marker := ← setting textOf standard.marker marker }

/-- The settings that a value holds. A moment counts as a table without settings. -/
def ofValue : Toml.Value → Option Config
  | .table _ entries =>
    ofValues (entries.lookup "source_dirs") (entries.lookup "out_dir")
      (entries.lookup "runtime_path") (entries.lookup "marker")
  | .array items => ofValues items[0]? items[1]? items[2]? items[3]?
  | .moment _ => some standard
  | _ => none

/-- The settings that a document holds. -/
def ofDocument (t : Toml.Table) : Option Config :=
  match t.lookup "generator" with
  | some v => ofValue v
  | none => some standard

/-- Reads settings from the text of a configuration file. -/
def ofText (s : String) : Option Config :=
  (Toml.Table.ofText s).bind ofDocument

/-! ## Loading a file -/

/-- Why no settings are loaded. -/
inductive LoadError where
  | unreadable (fault : FileFault)
  | malformed
deriving DecidableEq, Repr

/-- The wording of a configuration file that cannot be read. -/
def LoadError.message : LoadError → String
  | .unreadable fault => "Failed to read file: " ++ fault.message
  | .malformed => "Failed to parse TOML"

/-- Loads a configuration file. -/
def load (t : FileTree) (l : Location) : Except LoadError Config :=
  match t.readText l with
  | .error fault => .error (.unreadable fault)
  | .ok s =>
    match ofText s with
    | some c => .ok c
    | none => .error .malformed

/-- Loads a configuration file, or gives the standard settings where nothing lies. -/
def loadOrStandard (t : FileTree) (l : Location) : Except LoadError Config :=
  if (t.at? l).isSome then load t l else .ok standard

end Config

end ObservableStore
