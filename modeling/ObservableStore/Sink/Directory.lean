import ObservableStore.FileTree.Access
import ObservableStore.Sink.Memory

/-!
# A directory as a destination

The sink on a directory writes each unit to its place below a root. Within a batch it takes neither
two units with the same key nor two units with the same place, so nothing that it wrote is
overwritten. A file that holds the unit's text already is left alone. Two places written with
different names are different files, since a file tree has no links.
-/

namespace ObservableStore

/-- A sink on a directory. -/
structure DirectorySink where
  root : Location
  /-- The keys taken with their origins, the first one first. -/
  written : List (UnitKey × Origin)
  /-- The places taken with their keys, the first one first. -/
  places : List (Location × UnitKey)
  /-- How many units were there already. -/
  unchanged : Nat
deriving Repr, Inhabited

namespace DirectorySink

/-- A sink that has taken nothing. -/
def new (root : Location) : DirectorySink := ⟨root, [], [], 0⟩

/-- Where a unit is written. -/
def pathOf (s : DirectorySink) (u : GeneratedUnit) : Location :=
  s.root.join u.relativePath

/-- The keys taken with their origins, in the order of the keys. -/
def sorted (s : DirectorySink) : List (UnitKey × Origin) :=
  s.written.mergeSort fun a b => UnitKey.le a.1 b.1

/-- The key that took a place. -/
def placed? (s : DirectorySink) (l : Location) : Option UnitKey :=
  (s.places.find? fun p => p.1.same l).map Prod.snd

/-- Refuses a unit whose key or whose place was used before. -/
def check (s : DirectorySink) (u : GeneratedUnit) : Except SinkError Unit := do
  checkUnique (s.written.lookup u.key) u
  match s.placed? u.relativePath with
  | some first => .error (.collision u.relativePath u.key.toText first.toText)
  | none => .ok ()

/-- Records a unit. -/
def record (s : DirectorySink) (u : GeneratedUnit) (wasThere : Bool) : DirectorySink :=
  { s with
    written := s.written ++ [(u.key, u.origin)]
    places := s.places ++ [(u.relativePath, u.key)]
    unchanged := if wasThere then s.unchanged + 1 else s.unchanged }

/-- Whether the file at a location holds just the given text. -/
def holds (t : FileTree) (l : Location) (text : String) : Bool :=
  match t.readText l with
  | .ok s => s == text
  | .error _ => false

/-- Takes a unit: what refused it if it was refused, the sink, and the file tree. -/
def write (s : DirectorySink) (t : FileTree) (u : GeneratedUnit) :
    Option SinkError × DirectorySink × FileTree :=
  match s.check u with
  | .error e => (some e, s, t)
  | .ok () =>
    if holds t (s.pathOf u) u.source then (none, s.record u true, t)
    else match t.store (s.pathOf u) u.source with
      | (some fault, t') => (some (.file fault), s, t')
      | (none, t') => (none, s.record u false, t')

end DirectorySink

end ObservableStore
