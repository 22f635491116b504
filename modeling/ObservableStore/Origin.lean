import ObservableStore.Json
import ObservableStore.Location
import ObservableStore.Text.Fingerprint

/-!
# Origins

Where a declaration came from: its source file and the fingerprint of the text it was read from. A
declaration that a macro handed in has no file. Origins appear in reports and never in generated
code.
-/

namespace ObservableStore

/-- The source of a declaration. -/
structure Origin where
  /-- The source file, if there is one. -/
  path : Option Location
  /-- The fingerprint of the source text. -/
  fingerprint : UInt64
deriving DecidableEq, Repr, Inhabited

namespace Origin

/-- The origin of a declaration without a file. -/
def detached : Origin := ⟨none, 0⟩

/-- The origin of a declaration read from a text. -/
def ofSource (path : Location) (text : String) : Origin :=
  ⟨some path, Text.fingerprint text⟩

/-- The origin as reports name it. -/
def toText (o : Origin) : String :=
  match o.path with
  | some path => path.text
  | none => "<macro input>"

/-- The origin as a JSON value. -/
def toJson (o : Origin) : Json :=
  .object
    [("path", match o.path with
      | some path => .text path.text
      | none => .null),
     ("fingerprint", .number o.fingerprint.toNat)]

end Origin

end ObservableStore
