import ObservableStore.Json

/-!
# Visibility

The visibility of a store root, which its wrapper takes over. Code spliced into the declaring module
repeats the modifier (`inlineModifier`); code mounted as a child of that module has to reach one
level further up (`childModifier`).
-/

namespace ObservableStore

/-- Who can see a store root. -/
inductive Visibility where
  /-- No modifier: the declaring module. -/
  | inherited
  | everywhere
  | crate
  | super
  /-- The modifier `pub(in path)`. -/
  | restricted (path : String)
deriving DecidableEq, Repr, Inhabited

namespace Visibility

/-- The modifier for code in the declaring module. -/
def inlineModifier : Visibility → String
  | .inherited => ""
  | .everywhere => "pub "
  | .crate => "pub(crate) "
  | .super => "pub(super) "
  | .restricted path => "pub(in " ++ path ++ ") "

/-- The modifier for code in a child of the declaring module. -/
def childModifier : Visibility → String
  | .inherited => "pub(super) "
  | .super => "pub(in super::super) "
  | .restricted path =>
    if path = "self" then "pub(super) "
    else if "super".toList.isPrefixOf path.toList then "pub(in super::" ++ path ++ ") "
    else inlineModifier (.restricted path)
  | v => v.inlineModifier

/-- The visibility as a JSON value. -/
def toJson : Visibility → Json
  | .inherited => .text "inherited"
  | .everywhere => .text "public"
  | .crate => .text "crate"
  | .super => .text "super"
  | .restricted path => .object [("restricted", .text path)]

end Visibility

end ObservableStore
