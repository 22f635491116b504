import ObservableStore.Wrapper.Basic

/-!
# Generated units

A unit is one generated file: the text of a wrapper with its key, its file name and the origin of
the root. Its place below an output root follows its namespace.
-/

namespace ObservableStore


/-- The key of a unit within a batch. -/
structure UnitKey where
  home : Namespace
  name : String
deriving DecidableEq, Repr, Inhabited

namespace UnitKey

/-- The key as a path. -/
def toText (k : UnitKey) : String := k.home.toText ++ "::" ++ k.name

/-- Compares keys by namespace and then by name. -/
def compare (a b : UnitKey) : Ordering :=
  Import.compare (a.home, a.name) (b.home, b.name)

/-- Whether `a` comes no later than `b`. -/
def le (a b : UnitKey) : Bool := (compare a b).isLE

end UnitKey

/-- A generated file. -/
structure GeneratedUnit where
  home : Namespace
  /-- The name of the wrapper. -/
  name : String
  fileName : String
  source : String
  origin : Origin
deriving DecidableEq, Repr, Inhabited

namespace GeneratedUnit

/-- The key of a unit. -/
def key (u : GeneratedUnit) : UnitKey := ⟨u.home, u.name⟩

/-- The place of a unit below an output root. -/
def relativePath (u : GeneratedUnit) : Location :=
  u.home.relativeDir.push u.fileName

end GeneratedUnit

/-- The name of the file that holds a wrapper. -/
def wrapperFileName (wrapper : String) : String :=
  Text.snakeCase wrapper ++ ".rs"

/-- The unit that holds the wrapper of a described root. -/
def StoreDescription.emit (d : StoreDescription) (o : EmitOptions) : GeneratedUnit where
  home := d.home
  name := d.storeName
  fileName := wrapperFileName d.storeName
  source := Code.text (Wrapper.ofDescription d o).code
  origin := d.origin

end ObservableStore
