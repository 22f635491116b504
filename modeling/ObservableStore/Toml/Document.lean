import ObservableStore.Toml.Expression

/-!
# Documents

The lines of a document fall into sections, the first one without a header. A section fills one
table, which is new unless longer headers led through it before.
-/

namespace ObservableStore.Toml

/-- A value for a dotted key. -/
structure Assignment where
  path : List String
  key : String
  value : Value
deriving Repr

/-- The header of a section. -/
structure Header where
  path : List String
  key : String
  /-- Whether several tables share the header. -/
  shared : Bool
deriving Repr

/-- A header with the assignments below it. -/
structure TableSection where
  header : Header
  body : List Assignment
deriving Repr

/-- The assignments in front of the first header, and the sections. -/
def sectionsOf : List Line → List Assignment × List TableSection
  | [] => ([], [])
  | .assign path key v :: rest =>
    let found := sectionsOf rest
    (⟨path, key, v⟩ :: found.1, found.2)
  | .header path key :: rest =>
    let found := sectionsOf rest
    ([], ⟨⟨path, key, false⟩, found.1⟩ :: found.2)
  | .sharedHeader path key :: rest =>
    let found := sectionsOf rest
    ([], ⟨⟨path, key, true⟩, found.1⟩ :: found.2)

namespace Table

/-- Adds assignments to a table that has a header. -/
def assignAll (body : List Assignment) (t : Table) : Option Table :=
  body.foldlM (fun t a => assign .header a.path a.key a.value t) t

/-- Adds the table of a section to the table in which its header's last part stands. -/
def place (s : TableSection) (parent : Table) : Option Table :=
  match s.header.shared, parent.lookup s.header.key with
  | false, none => do
    return set s.header.key (.table .header (← assignAll s.body [])) parent
  | false, some (.table .implied inner) => do
    return set s.header.key (.table .header (← assignAll s.body inner)) parent
  | true, none => do
    return set s.header.key (.tables [← assignAll s.body []]) parent
  | true, some (.tables items) => do
    return set s.header.key (.tables (items ++ [← assignAll s.body []])) parent
  | _, _ => none

/-- Adds a section to a document. -/
def addSection (t : Table) (s : TableSection) : Option Table :=
  changeAt .implied (fun _ parent => place s parent) s.header.path .header t

/-- The document that lines make up. -/
def ofLines (ls : List Line) : Option Table := do
  let (top, sections) := sectionsOf ls
  sections.foldlM addSection (← assignAll top [])

/-- Reads a document; a byte order mark in front of it is left out. -/
def ofText (s : String) : Option Table := do
  let body := match s.toList with
    | '\ufeff' :: rest => rest
    | cs => cs
  ofLines (← Reader.readAll Reader.lines body)

end Table

end ObservableStore.Toml
