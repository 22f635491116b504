import ObservableStore.Failure
import ObservableStore.GeneratedUnit

/-!
# Destinations for units

A sink takes the units of one batch, and of two units with the same key only the first one. The sink
in memory keeps them as they are.
-/

namespace ObservableStore

/-- Refuses a unit whose key was used before; `first` is the origin it was used with. -/
def checkUnique (first : Option Origin) (u : GeneratedUnit) : Except SinkError Unit :=
  match first with
  | some origin => .error (.duplicate u.key.toText origin.toText)
  | none => .ok ()

/-- A sink in memory. -/
structure MemorySink where
  /-- The units taken, the first one first. -/
  taken : List GeneratedUnit
deriving Repr, Inhabited

namespace MemorySink

/-- The sink that has taken nothing. -/
def empty : MemorySink := ⟨[]⟩

/-- The unit with a key. -/
def get? (s : MemorySink) (k : UnitKey) : Option GeneratedUnit :=
  s.taken.find? fun u => u.key == k

/-- The units in the order of their keys. -/
def units (s : MemorySink) : List GeneratedUnit :=
  s.taken.mergeSort fun u v => UnitKey.le u.key v.key

/-- How many units there are. -/
def size (s : MemorySink) : Nat := s.taken.length

/-- Takes a unit. -/
def write (s : MemorySink) (u : GeneratedUnit) : Except SinkError MemorySink := do
  checkUnique ((s.get? u.key).map (·.origin)) u
  return { s with taken := s.taken ++ [u] }

end MemorySink

end ObservableStore
