import ObservableStore.Toml.Quoted

/-!
# Expressions

A document is a sequence of lines: a header of a table, a key with a value, or nothing but a
comment. Arrays and tables between braces nest to a fixed depth.
-/

namespace ObservableStore.Toml

/-- How deep arrays and tables between braces may nest. -/
def nestingLimit : Nat := 79

/-- How many parts a dotted key may have. -/
def keyLimit : Nat := 79

namespace Reader

/-! ## Keys -/

/-- Whether a character can stand in a key without quotes. -/
def isBare (c : Char) : Bool :=
  ('A' ≤ c && c ≤ 'Z') || ('a' ≤ c && c ≤ 'z') || isDigit c || c == '-' || c == '_'

/-- One part of a key. -/
def simpleKey : Reader String := do
  match ← next? with
  | some '"' => lineText '"'
  | some '\'' => lineText '\''
  | _ =>
    let first ← one isBare
    let more ← span isBare
    return String.ofList (first :: more)

/-- A key: what stands in front of its last part, and that part. -/
def key : Reader (List String × String) := do
  let parts ← separated (char '.') do
    blanks
    let part ← simpleKey
    blanks
    return part
  match parts.getLast? with
  | some last => if parts.length ≤ keyLimit then return (parts.dropLast, last) else refuse
  | none => refuse

/-! ## Values -/

/-- A value that holds no other values. -/
def scalar : Reader Value := do
  match ← next? with
  | some '"' | some '\'' => return .text (← quoted)
  | some 't' =>
    text "true"
    return .boolean true
  | some 'f' =>
    text "false"
    return .boolean false
  | some 'i' | some 'n' => specialReal
  | some c =>
    if isDigit c || c == '+' || c == '-' then orElse moment (orElse real integer) else refuse
  | none => refuse

/-- An array; a comma may stand behind its last element. -/
def array (element : Reader Value) : Reader Value := do
  char '['
  let items ← separated (char ',') do
    blankLines
    let v ← element
    blankLines
    return v
  unless items.isEmpty do
    let _ ← optional (char ',')
  blankLines
  char ']'
  return .array items

/-- A table between braces, within one line. -/
def inlineTable (element : Reader Value) : Reader Value := do
  char '\x7b'
  let pairs ← separated (char ',') do
    let (path, k) ← key
    char '='
    blanks
    let v ← element
    blanks
    return (path, k, v)
  blanks
  char '\x7d'
  match pairs.foldlM (fun t (path, k, v) => Table.assign .inline path k v t) [] with
  | some entries => return .table .inline entries
  | none => refuse

/-- A value with at most a number of arrays and tables around any of its parts. -/
def value : Nat → Reader Value
  | 0 => scalar
  | depth + 1 => do
    match ← next? with
    | some '[' => array (value depth)
    | some '\x7b' => inlineTable (value depth)
    | _ => scalar

end Reader

/-! ## Lines -/

/-- A line that says something. -/
inductive Line where
  /-- A value for a dotted key in the table of the header above. -/
  | assign (path : List String) (key : String) (v : Value)
  /-- The header of a table. -/
  | header (path : List String) (key : String)
  /-- The header of one more table among those that share it. -/
  | sharedHeader (path : List String) (key : String)
deriving Repr

namespace Reader

/-- A header. -/
def header : Reader Line := do
  let shared ← optional (text "[[")
  match shared with
  | some _ =>
    let (path, k) ← key
    text "]]"
    lineRest
    return .sharedHeader path k
  | none =>
    char '['
    let (path, k) ← key
    char ']'
    lineRest
    return .header path k

/-- A key with its value. -/
def assignment : Reader Line := do
  let (path, k) ← key
  char '='
  blanks
  let v ← value nestingLimit
  lineRest
  return .assign path k v

/-- A line, if it says something. -/
def line : Reader (Option Line) := do
  blanks
  match ← next? with
  | some '#' =>
    comment
    lineEnd
    return none
  | some '\n' | some '\r' =>
    lineBreak
    return none
  | some '[' => return some (← header)
  | _ => return some (← assignment)

/-- All lines of a document. -/
def lines : Reader (List Line) := do
  let found ← many line
  blanks
  return found.filterMap id

end Reader

end ObservableStore.Toml
