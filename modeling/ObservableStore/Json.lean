import ObservableStore.Text.Quoted

/-!
# JSON values

The values that descriptions and settings are shown as. Members of an object keep the order in which
they were given. `Json.pretty` writes a value over several lines, two blanks to a level; empty
arrays and objects stay on one line.
-/

namespace ObservableStore

/-- A JSON value without fractions. -/
inductive Json where
  | null
  | number (n : Nat)
  | text (s : String)
  | array (items : List Json)
  | object (members : List (String × Json))
deriving Repr, Inhabited

namespace Json

/-- A character as it stands in a JSON string. -/
def escapeChar (c : Char) : List Char :=
  if c == '"' then ['\\', '"']
  else if c == '\\' then ['\\', '\\']
  else if c == '\n' then ['\\', 'n']
  else if c == '\r' then ['\\', 'r']
  else if c == '\t' then ['\\', 't']
  else if c.toNat == 8 then ['\\', 'b']
  else if c.toNat == 12 then ['\\', 'f']
  else if c.toNat < 32 then
    ['\\', 'u', '0', '0', Text.hexDigit (c.toNat / 16), Text.hexDigit (c.toNat % 16)]
  else [c]

/-- A JSON string. -/
def quote (s : String) : String :=
  String.ofList ('"' :: (s.toList.flatMap escapeChar ++ ['"']))

/-- The blanks of a level. -/
def indent (level : Nat) : String :=
  String.ofList (List.replicate (2 * level) ' ')

mutual

/-- A value over several lines, at a level of indentation. -/
def prettyAt (level : Nat) : Json → String
  | .null => "null"
  | .number n => toString n
  | .text s => quote s
  | .array [] => "[]"
  | .array (v :: vs) =>
    "[\n" ++ indent (level + 1) ++ prettyAt (level + 1) v ++ prettyItems (level + 1) vs ++ "\n" ++
      indent level ++ "]"
  | .object [] => "\x7b\x7d"
  | .object ((k, v) :: ms) =>
    "\x7b\n" ++ indent (level + 1) ++ quote k ++ ": " ++ prettyAt (level + 1) v ++
      prettyMembers (level + 1) ms ++ "\n" ++ indent level ++ "\x7d"

/-- The items of an array after its first one. -/
def prettyItems (level : Nat) : List Json → String
  | [] => ""
  | v :: vs => ",\n" ++ indent level ++ prettyAt level v ++ prettyItems level vs

/-- The members of an object after its first one. -/
def prettyMembers (level : Nat) : List (String × Json) → String
  | [] => ""
  | (k, v) :: ms =>
    ",\n" ++ indent level ++ quote k ++ ": " ++ prettyAt level v ++ prettyMembers level ms

end

/-- A value over several lines. -/
def pretty (v : Json) : String :=
  prettyAt 0 v

end Json

end ObservableStore
