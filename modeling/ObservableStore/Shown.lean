import ObservableStore.Text.Quoted

/-!
# Values shown for inspection

How values are shown to someone who looks into a running program: on one line (`compact`), or with
a line for every part (`spread`).
-/

namespace ObservableStore

/-- A value as it is shown. -/
inductive Shown where
  | atom (text : String)
  | sequence (items : List Shown)
  | record (name : String) (fields : List (String × Shown))
deriving Repr, Inhabited

namespace Shown

/-- A text, between quotes. -/
def ofText (s : String) : Shown := .atom (Text.Quoted.debug s)

/-- A number. -/
def ofInt (n : Int) : Shown := .atom (toString n)

mutual

/-- A value on one line. -/
def compact : Shown → String
  | .atom text => text
  | .sequence items => "[" ++ ", ".intercalate (compactItems items) ++ "]"
  | .record name [] => name
  | .record name (f :: fs) =>
    name ++ " \x7b " ++ ", ".intercalate (compactFields (f :: fs)) ++ " \x7d"

/-- Each of some values on one line. -/
def compactItems : List Shown → List String
  | [] => []
  | x :: rest => compact x :: compactItems rest

/-- Each of some fields on one line. -/
def compactFields : List (String × Shown) → List String
  | [] => []
  | (name, x) :: rest => (name ++ ": " ++ compact x) :: compactFields rest

end

/-- The margin of a level. -/
def margin (level : Nat) : String := String.ofList (List.replicate (4 * level) ' ')

mutual

/-- A value with a line for every part, at a level. -/
def spread (level : Nat) : Shown → String
  | .atom text => text
  | .sequence [] => "[]"
  | .sequence (x :: xs) =>
    "[\n" ++ String.join (spreadItems (level + 1) (x :: xs)) ++ margin level ++ "]"
  | .record name [] => name
  | .record name (f :: fs) =>
    name ++ " \x7b\n" ++ String.join (spreadFields (level + 1) (f :: fs)) ++ margin level ++ "\x7d"

/-- The lines of some values, at a level. -/
def spreadItems (level : Nat) : List Shown → List String
  | [] => []
  | x :: rest => (margin level ++ spread level x ++ ",\n") :: spreadItems level rest

/-- The lines of some fields, at a level. -/
def spreadFields (level : Nat) : List (String × Shown) → List String
  | [] => []
  | (name, x) :: rest =>
    (margin level ++ name ++ ": " ++ spread level x ++ ",\n") :: spreadFields level rest

end

/-- A flow seen through a writer or a view. -/
def ofFlow (isWriter : Bool) (current : Shown) : Shown :=
  .record (if isWriter then "MutableStateFlow" else "StateFlow") [("value", current)]

end Shown

end ObservableStore
