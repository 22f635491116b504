/-!
# File trees

A file tree is a value: a file with its contents, or a directory with named entries. A position in a
tree is the list of names that leads to it. Names are texts.

A tree has nothing but files and directories: no links, which could lead to one place by several
ways, and no permissions, so that every file can be read and every directory written to.

What lies around a tree is kept in its root under two names that no entry of a directory has: `..`
is the directory around the root, with its own `..`, and `/` is the outermost one.
-/

namespace ObservableStore

/-- What a file holds. -/
inductive Contents where
  | text (s : String)
  /-- Bytes that are no text. -/
  | binary (bytes : List UInt8)
deriving DecidableEq, Repr, Inhabited

/-- A tree of directories and files, and of nothing else. The names of entries are texts. -/
inductive FileTree where
  | file (c : Contents)
  | directory (entries : List (String × FileTree))
deriving Repr, Inhabited

namespace FileTree

/-! ## The way out -/

/-- The name of the directory around another one. -/
def around : String := ".."

/-- The name of the outermost directory. -/
def outermost : String := "/"

/-- Whether a position is a directory on the way out of the tree, its root included. -/
def isOutward (p : List String) : Bool :=
  p.all (· == around) || p == [outermost]

/-- The position one step up. There is none above the outermost directory. -/
def enclosing (p : List String) : List String :=
  if p == [outermost] then p
  else if p.all (· == around) then p ++ [around]
  else p.dropLast

/-! ## Contents and entries -/

/-- The empty directory. -/
def empty : FileTree := .directory []

/-- Whether the root of the tree is a directory. -/
def isDirectory : FileTree → Bool
  | .directory _ => true
  | .file _ => false

/-- The entry with a name. -/
def entry? (t : FileTree) (name : String) : Option FileTree :=
  match t with
  | .directory entries => entries.lookup name
  | .file _ => none

/-- What lies at a position. -/
def find? (t : FileTree) : List String → Option FileTree
  | [] => some t
  | name :: rest => (t.entry? name).bind fun child => child.find? rest

/-- Sets the entry with a name; a new entry comes last. -/
def setEntry (name : String) (new : FileTree) : List (String × FileTree) → List (String × FileTree)
  | [] => [(name, new)]
  | (n, t) :: rest => if name = n then (n, new) :: rest else (n, t) :: setEntry name new rest

/-- Puts a tree at a position. Directories on the way there are made; nothing is put below a
file. -/
def put (t : FileTree) : List String → FileTree → FileTree
  | [], new => new
  | name :: rest, new =>
    match t with
    | .file c => .file c
    | .directory entries =>
      .directory (setEntry name (((entries.lookup name).getD empty).put rest new) entries)

/-- Removes what lies at a position. -/
def remove (t : FileTree) : List String → FileTree
  | [] => t
  | name :: rest =>
    match t with
    | .file c => .file c
    | .directory entries =>
      if rest.isEmpty then .directory (entries.filter fun e => e.1 != name)
      else match entries.lookup name with
        | some child => .directory (setEntry name (child.remove rest) entries)
        | none => .directory entries

/-! ## Entries found -/

theorem lookup_setEntry_self (name : String) (new : FileTree) (entries : List (String × FileTree)) :
    (setEntry name new entries).lookup name = some new := by
  induction entries with
  | nil => simp [setEntry]
  | cons e rest ih =>
    obtain ⟨n, t⟩ := e
    by_cases h : name = n
    · simp [setEntry, h]
    · have hb : (name == n) = false := by simpa using h
      simp only [setEntry, if_neg h, List.lookup_cons, hb]
      exact ih

theorem lookup_setEntry_other {name other : String} (new : FileTree)
    (entries : List (String × FileTree)) (h : other ≠ name) :
    (setEntry name new entries).lookup other = entries.lookup other := by
  have hne : (other == name) = false := by simpa using h
  induction entries with
  | nil => simp [setEntry, List.lookup_cons, hne]
  | cons e rest ih =>
    obtain ⟨n, t⟩ := e
    by_cases hn : name = n
    · subst hn
      simp [setEntry, List.lookup_cons, hne]
    · simp only [setEntry, if_neg hn, List.lookup_cons]
      cases hb : (other == n) with
      | true => rfl
      | false => simpa using ih

@[simp] theorem find?_nil (t : FileTree) : t.find? [] = some t := rfl

theorem find?_append (t : FileTree) (p q : List String) :
    t.find? (p ++ q) = (t.find? p).bind fun u => u.find? q := by
  induction p generalizing t with
  | nil => rfl
  | cons n p ih =>
    simp only [List.cons_append, find?]
    cases t.entry? n with
    | none => rfl
    | some child => simpa using ih child

end FileTree

end ObservableStore
