/-!
# Readers of characters

A reader takes characters from the front of a text and fails or gives a result. Repetition goes on
as long as a round leaves fewer characters, so it always ends.
-/

namespace ObservableStore.Toml

/-- A reader of characters. -/
abbrev Reader := StateT (List Char) Option

namespace Reader

/-- Reads nothing and fails. -/
def refuse {α : Type} : Reader α := fun _ => none

/-- The next character, which is not read. -/
def next? : Reader (Option Char) := fun cs => some (cs.head?, cs)

/-- Whether nothing is left. -/
def atEnd : Reader Bool := fun cs => some (cs.isEmpty, cs)

/-- The next character, if it passes a test. -/
def one (p : Char → Bool) : Reader Char
  | c :: rest => if p c then some (c, rest) else none
  | [] => none

/-- The given character. -/
def char (c : Char) : Reader Unit := do
  let _ ← one (· == c)

/-- The given text. -/
def text (s : String) : Reader Unit := fun cs =>
  if s.toList.isPrefixOf cs then some ((), cs.drop s.length) else none

/-- The characters up to the first one that fails a test. -/
def span (p : Char → Bool) : Reader (List Char) := fun cs =>
  some (cs.takeWhile p, cs.dropWhile p)

/-- A number of characters that all pass a test. -/
def exactly (n : Nat) (p : Char → Bool) : Reader (List Char) := fun cs =>
  let found := cs.take n
  if found.length = n ∧ found.all p then some (found, cs.drop n) else none

/-- Reads with the first reader, or with the second where the first fails. -/
def orElse {α : Type} (r s : Reader α) : Reader α := fun cs =>
  match r cs with
  | some found => some found
  | none => s cs

/-- Reads if the reader does not fail. -/
def optional {α : Type} (r : Reader α) : Reader (Option α) := fun cs =>
  match r cs with
  | some (a, rest) => some (some a, rest)
  | none => some (none, cs)

/-- Fails where the reader fails, and reads nothing. -/
def ahead {α : Type} (r : Reader α) : Reader Unit := fun cs =>
  match r cs with
  | some _ => some ((), cs)
  | none => none

/-- Reads and gives, beside the result, the characters read. -/
def recorded {α : Type} (r : Reader α) : Reader (α × List Char) := fun cs =>
  match r cs with
  | some (a, rest) => some ((a, cs.take (cs.length - rest.length)), rest)
  | none => none

/-- Reads as often as the reader does not fail and leaves fewer characters. -/
def many {α : Type} (r : Reader α) (cs : List Char) : Option (List α × List Char) :=
  match r cs with
  | none => some ([], cs)
  | some (a, rest) =>
    if rest.length < cs.length then (many r rest).map fun found => (a :: found.1, found.2)
    else some ([], cs)
termination_by cs.length

/-- Elements with separators between them; there may be none. -/
def separated {α : Type} (separator : Reader Unit) (element : Reader α) : Reader (List α) := do
  match ← optional element with
  | none => return []
  | some first =>
    let more ← many (do separator; element)
    return first :: more

/-- Reads a text to its end. -/
def readAll {α : Type} (r : Reader α) (cs : List Char) : Option α :=
  match r cs with
  | some (a, []) => some a
  | _ => none

end Reader

/-! ## Blanks and comments -/

/-- Whether a character is a blank within a line. -/
def isBlank (c : Char) : Bool := c == ' ' || c == '\t'

/-- Whether a character can stand in a comment: no control character other than a tab. -/
def isPrintable (c : Char) : Bool :=
  c == '\t' || (' ' ≤ c && c ≤ '~') || '\x7f' < c

namespace Reader

/-- Blanks within a line. -/
def blanks : Reader Unit := do
  let _ ← span isBlank

/-- A line break. -/
def lineBreak : Reader Unit := orElse (text "\n") (text "\r\n")

/-- A comment up to the end of its line. -/
def comment : Reader Unit := do
  char '#'
  let _ ← span isPrintable

/-- The end of a line or of the text. -/
def lineEnd : Reader Unit := do
  unless ← atEnd do lineBreak

/-- What may stand behind an expression up to the end of its line. -/
def lineRest : Reader Unit := do
  blanks
  let _ ← optional comment
  lineEnd

/-- Blanks, line breaks and comments that end within the text. -/
def blankLines : Reader Unit := do
  let _ ← many (orElse (do let _ ← one isBlank) (orElse lineBreak (do comment; lineBreak)))

end Reader

end ObservableStore.Toml
