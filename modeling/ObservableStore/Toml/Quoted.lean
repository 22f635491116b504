import ObservableStore.Toml.Number

/-!
# Quoted texts

A text stands between double quotes, where a backslash starts an escape, or between single quotes,
where everything is taken as it stands. Between three quotes a text may go over lines: a line break
right behind the opening quotes is left out, and one or two quotes may stand anywhere in it.
-/

namespace ObservableStore.Toml

/-- Whether a character can stand as it is between quotes `q`. -/
def isPlain (q : Char) (c : Char) : Bool :=
  isPrintable c && c != q && !(q == '"' && c == '\\')

namespace Reader

/-- The character with a code point of a fixed count of hexadecimal digits. -/
def codePoint (count : Nat) : Reader Char := do
  let ds ← exactly count isHexDigit
  let n := valueOf 16 ds
  if n.isValidChar then return Char.ofNat n else refuse

/-- An escape: a backslash and what follows it. -/
def escape : Reader Char := do
  char '\\'
  let c ← one fun _ => true
  match c with
  | 'b' => return '\x08'
  | 't' => return '\t'
  | 'n' => return '\n'
  | 'f' => return '\x0c'
  | 'r' => return '\r'
  | '"' => return '"'
  | '\\' => return '\\'
  | 'u' => codePoint 4
  | 'U' => codePoint 8
  | _ => refuse

/-- A character between quotes `q`. -/
def quotedChar (q : Char) : Reader Char :=
  if q == '"' then orElse (one (isPlain q)) escape else one (isPlain q)

/-- A text within a line between quotes `q`. -/
def lineText (q : Char) : Reader String := do
  char q
  let cs ← many (quotedChar q)
  char q
  return String.ofList cs

/-! ## Texts over lines -/

/-- A backslash at the end of a line, which leaves out the line break and the blanks behind it. -/
def continuation : Reader Unit := do
  char '\\'
  blanks
  lineBreak
  let _ ← many (orElse (do let _ ← one isBlank) lineBreak)

/-- A piece of a text over lines between quotes `q` other than a quote. -/
def linesPiece (q : Char) : Reader (List Char) :=
  orElse (do lineBreak; return ['\n'])
    (if q == '"' then orElse (do continuation; return []) (do return [← quotedChar q])
      else do return [← quotedChar q])

/-- The mark around a text over lines. -/
def mark (q : Char) : Reader Unit := text (String.ofList [q, q, q])

/-- One or two quotes, as many as can be, in front of something. -/
def quotesBefore (q : Char) (what : Reader Unit) : Reader (List Char) :=
  orElse (do char q; char q; ahead what; return [q, q]) (do char q; ahead what; return [q])

/-- A text over lines between quotes `q`. -/
def linesText (q : Char) : Reader String := do
  mark q
  let _ ← optional lineBreak
  let piece := linesPiece q
  let pieces ← many (orElse piece (quotesBefore q (do let _ ← piece)))
  let last ← optional (quotesBefore q (mark q))
  mark q
  return String.ofList (pieces.flatten ++ last.getD [])

/-- A text. -/
def quoted : Reader String :=
  orElse (linesText '"') (orElse (lineText '"') (orElse (linesText '\'') (lineText '\'')))

end Reader

end ObservableStore.Toml
