import ObservableStore.Text.Ranges

/-!
# The value of a string literal

A literal between quotes writes some characters behind a backslash, and a backslash at the end of a
line leaves out the spaces, tabs and line ends that follow. A raw literal, marked by `r`, is taken as
it stands.
-/

namespace ObservableStore.Text.StringLiteral

/-- The character that a letter behind a backslash stands for. -/
def escaped? : Char → Option Char
  | 'n' => some '\n'
  | 'r' => some '\r'
  | 't' => some '\t'
  | '0' => some (Char.ofNat 0)
  | '\\' => some '\\'
  | '\'' => some '\''
  | '"' => some '"'
  | _ => none

/-- Whether a character is left out at the beginning of a line that continues a literal. -/
def isIndentation (c : Char) : Bool :=
  c == ' ' || c == '\t' || c == '\n' || c == '\r'

/-- What the reader of a literal is in the middle of. -/
inductive State where
  | plain
  /-- Behind a backslash. -/
  | escape
  /-- Behind a line end that is left out. -/
  | skipping
  /-- In a code point of two hexadecimal digits, of which some are read. -/
  | byte (digits : List Char)
  /-- In a code point in braces. -/
  | code (digits : List Char)

/-- The character with a code point given by its digits, the last digit first. -/
def ofDigits (digits : List Char) : Char :=
  Char.ofNat (hexNumber digits.reverse)

/-- Takes a character outside of escapes. A carriage return stands only in front of a line end and
is left out. -/
def takePlain (c : Char) : State × List Char :=
  if c = '\\' then (.escape, [])
  else if c = '\r' then (.plain, [])
  else (.plain, [c])

/-- Takes one character of a literal's body. -/
def take : State → Char → State × List Char
  | .plain, c => takePlain c
  | .escape, c =>
    if c = 'x' then (.byte [], [])
    else if c = 'u' then (.code [], [])
    else match escaped? c with
      | some e => (.plain, [e])
      | none => (.skipping, [])
  | .skipping, c => if isIndentation c then (.skipping, []) else takePlain c
  | .byte digits, c =>
    if digits.isEmpty then (.byte [c], []) else (.plain, [ofDigits (c :: digits)])
  | .code digits, c =>
    if c = '\x7b' || c = '_' then (.code digits, [])
    else if c = '\x7d' then (.plain, [ofDigits digits])
    else (.code (c :: digits), [])

/-- The value of the body of a literal between quotes. -/
def unescape (state : State) : List Char → List Char
  | [] => []
  | c :: rest =>
    let (next, out) := take state c
    out ++ unescape next rest

/-- What stands before the last quote. -/
def beforeLastQuote (cs : List Char) : List Char :=
  ((cs.reverse.dropWhile (· ≠ '"')).drop 1).reverse

/-- The value of a string literal. -/
def valueOf (literal : String) : String :=
  match literal.toList with
  | '"' :: body => String.ofList (unescape .plain (beforeLastQuote body))
  | 'r' :: rest => String.ofList (beforeLastQuote ((rest.dropWhile (· ≠ '"')).drop 1))
  | cs => String.ofList cs

end ObservableStore.Text.StringLiteral
