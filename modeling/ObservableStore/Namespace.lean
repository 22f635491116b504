import ObservableStore.Json
import ObservableStore.Location
import ObservableStore.Text.Blank
import ObservableStore.Text.Split

/-!
# Namespaces

A module path such as `crate::ui` or `std::collections`. The namespace `self` stands for the module
that declares a store root when its absolute path is not known; for the same reason a path may be
kept *as written*, and then it only holds in the declaring module.
-/

namespace ObservableStore

/-- A module path. -/
structure Namespace where
  segments : List String
  /-- Whether the path only resolves from the module it was written in. -/
  asWritten : Bool
deriving DecidableEq, Repr, Inhabited

namespace Namespace

/-- A path that holds everywhere, or starts at `crate`, `self` or `super`. -/
def ofSegments (segments : List String) : Namespace := ⟨segments, false⟩

/-- A path that only holds in the module it was written in. -/
def ofWritten (segments : List String) : Namespace := ⟨segments, true⟩

/-- The root of the crate. -/
def crateRoot : Namespace := ofSegments ["crate"]

/-- The declaring module itself. -/
def here : Namespace := ofSegments ["self"]

/-- The words that start a path relative to the crate or the module. -/
def isRelativeWord (s : String) : Bool :=
  s == "crate" || s == "self" || s == "super"

/-- Whether the path starts at `crate`, `self` or `super`. -/
def isRelative (ns : Namespace) : Bool :=
  match ns.segments with
  | [] => false
  | first :: _ => isRelativeWord first

/-- Whether the path is `self`. -/
def isLocal (ns : Namespace) : Bool :=
  ns.segments == ["self"]

/-- The module `name` of this namespace. -/
def child (ns : Namespace) (name : String) : Namespace :=
  { ns with segments := ns.segments ++ [name] }

/-- The enclosing module: none above the root of a crate, `super` above `self`, and one more `super`
above a path that ends in it. -/
def parent? (ns : Namespace) : Option Namespace :=
  if ns.segments = ["self"] then some (ofSegments ["super"])
  else if ns.segments.getLast? = some "super" then some (ns.child "super")
  else match ns.segments with
    | [] => none
    | [_] => none
    | segments => some { ns with segments := segments.dropLast }

/-! ## Text -/

/-- The separator of segments. -/
def separator : List Char := [':', ':']

/-- The characters of the written path. -/
def toChars (ns : Namespace) : List Char :=
  Text.join separator (ns.segments.map String.toList)

/-- The path with `::` between its segments. -/
def toText (ns : Namespace) : String :=
  String.ofList ns.toChars

instance : ToString Namespace := ⟨toText⟩

/-- The segments of a written path: blanks around them and empty ones do not count. -/
def segmentsOfText (s : String) : List String :=
  (((Text.splitAtPair ':' s.toList).map Text.trim).filter (fun p => !p.isEmpty)).map String.ofList

/-- Reads a path; a text without segments is the root of the crate. -/
def parse (s : String) : Namespace :=
  match segmentsOfText s with
  | [] => crateRoot
  | segments => ofSegments segments

/-- The path to `name` that can be written in any module of the crate: a path that starts outside it
gets a leading `::`. A path kept as written gets none and holds in its own module only. -/
def qualify (ns : Namespace) (name : String) : String :=
  if ns.isRelative || ns.asWritten then ns.toText ++ "::" ++ name
  else "::" ++ ns.toText ++ "::" ++ name

/-- The directory of this namespace below an output root: leading `crate` segments have none. -/
def relativeDir (ns : Namespace) : Location :=
  Location.ofSegments (ns.segments.dropWhile (· == "crate"))

/-- The namespace as a JSON value: its text. -/
def toJson (ns : Namespace) : Json := .text ns.toText

/-! ## Order -/

/-- Compares segments from the first on; of two equal lists the one not kept as written comes
first. -/
def compare (a b : Namespace) : Ordering :=
  (Ord.compare a.segments b.segments).then (Ord.compare a.asWritten b.asWritten)

instance : Ord Namespace := ⟨compare⟩

/-- Whether `a` comes no later than `b`. -/
def le (a b : Namespace) : Bool := (compare a b).isLE

/-! ## Small facts -/

@[simp] theorem child_segments (ns : Namespace) (name : String) :
    (ns.child name).segments = ns.segments ++ [name] := rfl

@[simp] theorem child_asWritten (ns : Namespace) (name : String) :
    (ns.child name).asWritten = ns.asWritten := rfl

/-- A module lies directly in the namespace it is a child of. -/
theorem parent?_child (ns : Namespace) (name : String) (hne : ns.segments ≠ [])
    (hname : name ≠ "super") : (ns.child name).parent? = some ns := by
  have hlast : (ns.child name).segments.getLast? ≠ some "super" := by
    simp [hname]
  have hself : (ns.child name).segments ≠ ["self"] := by
    intro h
    have hl := congrArg List.length h
    have : ns.segments.length ≠ 0 := by simpa using hne
    simp at hl
    exact hne hl
  unfold parent?
  rw [if_neg hself, if_neg hlast]
  cases hs : ns.segments with
  | nil => exact absurd hs hne
  | cons a r =>
    cases hr : r ++ [name] with
    | nil => simp at hr
    | cons b t =>
      have : (ns.child name).segments = a :: b :: t := by simp [hs, hr]
      rw [this]
      simp only [Option.some.injEq]
      have hdrop : (a :: b :: t).dropLast = a :: r := by
        rw [← hr]
        have : a :: (r ++ [name]) = (a :: r) ++ [name] := rfl
        rw [this, List.dropLast_concat]
      cases ns
      simp_all [child]

end Namespace

end ObservableStore
