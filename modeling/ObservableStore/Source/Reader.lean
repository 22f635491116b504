import ObservableStore.Token.Basic

/-!
# Readers of tokens

A reader takes tokens from the front of a list and fails or gives a result. Beside the tokens left
it keeps the tokens read as they would be written out again: the characters of an operator joined,
and nothing else joined to anything. The tokens of macro calls are kept as they stood, and so are
those of a construct that is read and then not understood further (`verbatimIf`).

Repetition (`iterate`) goes on as long as a round leaves fewer tokens, so it always ends.
-/

namespace ObservableStore.Source

/-- A position in a list of tokens. -/
structure Cursor where
  /-- The tokens left. -/
  rest : List Token
  /-- The tokens read as they would be written out again, last one first. -/
  written : List Token
deriving Inhabited

/-- A reader of tokens. -/
abbrev Reader := StateT Cursor Option

/-! ## What a list of tokens begins with -/

namespace Ahead

/-- What follows an operator at the beginning; its characters must be joined to each other. -/
def operator? : List Char → List Token → Option (List Token)
  | [c], .punct d _ :: rest => if c = d ∧ d ≠ '\'' then some rest else none
  | c :: c' :: cs, .punct d true :: rest =>
    if c = d ∧ d ≠ '\'' then operator? (c' :: cs) rest else none
  | _, _ => none

/-- Whether an operator begins here. -/
def isOp (op : String) (ts : List Token) : Bool :=
  (operator? op.toList ts).isSome

/-- Whether a given word is next. -/
def isWord (w : String) : List Token → Bool
  | .word s :: _ => s == w
  | _ => false

/-- Whether any word is next. -/
def isAnyWord : List Token → Bool
  | .word _ :: _ => true
  | _ => false

/-- The words that cannot be identifiers. -/
def keywords : List String :=
  ["_", "abstract", "as", "async", "await", "become", "box", "break", "const", "continue", "crate",
    "do", "dyn", "else", "enum", "extern", "false", "final", "fn", "for", "if", "impl", "in", "let",
    "loop", "macro", "match", "mod", "move", "mut", "override", "priv", "pub", "ref", "return",
    "Self", "self", "static", "struct", "super", "trait", "true", "try", "type", "typeof", "unsafe",
    "unsized", "use", "virtual", "where", "while", "yield"]

/-- Whether a word can be an identifier. -/
def isIdentifier (w : String) : Bool :=
  !keywords.contains w

/-- Whether an identifier is next. -/
def isName : List Token → Bool
  | .word s :: _ => isIdentifier s
  | _ => false

/-- Whether a lifetime is next. -/
def isLifetime : List Token → Bool
  | .punct '\'' true :: .word _ :: _ => true
  | _ => false

/-- Whether a group is next. -/
def isGroup (d : Delimiter) : List Token → Bool
  | .group d' _ :: _ => d == d'
  | _ => false

/-- Whether a literal's text is a number. -/
def isNumberText (s : String) : Bool :=
  match s.toList with
  | c :: _ => '0' ≤ c && c ≤ '9'
  | [] => false

/-- Whether a literal, a truth value or a negated number is next. -/
def isLiteral : List Token → Bool
  | .literal _ :: _ => true
  | .word s :: _ => s == "true" || s == "false"
  | .punct '-' _ :: .literal s :: _ => isNumberText s
  | _ => false

/-- Whether a string literal is next. -/
def isString : List Token → Bool
  | .literal s :: _ =>
    match s.toList with
    | '"' :: _ => true
    | 'r' :: _ => true
    | _ => false
  | _ => false

/-- Whether a path in a pattern or an expression can begin here with a keyword. -/
def isPathWord (ts : List Token) : Bool :=
  isWord "self" ts || isWord "super" ts || isWord "crate" ts

/-- The tokens behind the next one; a lifetime counts as one token. -/
def skip : List Token → List Token
  | .punct '\'' true :: .word _ :: rest => rest
  | _ :: rest => rest
  | [] => []

end Ahead

/-! ## Single tokens -/

namespace Reader

/-- Reads nothing and fails. -/
def refuse {α : Type} : Reader α := fun _ => none

/-- Asks about the tokens left and reads nothing. -/
def ahead (p : List Token → Bool) : Reader Bool := fun c => some (p c.rest, c)

/-- Fails unless the tokens left pass a test. -/
def require (p : List Token → Bool) : Reader Unit := fun c =>
  if p c.rest then some ((), c) else none

/-- Whether nothing is left. -/
def atEnd : Reader Bool := ahead List.isEmpty

/-- Any word. -/
def anyWord : Reader String := fun c =>
  match c.rest with
  | .word s :: rest => some (s, { rest, written := .word s :: c.written })
  | _ => none

/-- The given word. -/
def word (w : String) : Reader Unit := do
  require (Ahead.isWord w)
  let _ ← anyWord

/-- An identifier. -/
def name : Reader String := do
  require Ahead.isName
  anyWord

/-- The given operator. -/
def op (s : String) : Reader Unit := fun c =>
  match Ahead.operator? s.toList c.rest with
  | some rest => some ((), { rest, written := (Token.ofOperator s.toList).reverse ++ c.written })
  | none => none

/-- The given word, if it is next. -/
def optWord (w : String) : Reader Bool := do
  if ← ahead (Ahead.isWord w) then
    word w
    return true
  else
    return false

/-- The given operator, if it is next. -/
def optOp (s : String) : Reader Bool := do
  if ← ahead (Ahead.isOp s) then
    op s
    return true
  else
    return false

/-- A lifetime. -/
def lifetime : Reader Unit := fun c =>
  match c.rest with
  | .punct '\'' true :: .word s :: rest =>
    some ((), { rest, written := .word s :: .punct '\'' true :: c.written })
  | _ => none

/-- A literal, a truth value or a negated number; its text. -/
def literal : Reader String := fun c =>
  match c.rest with
  | .literal s :: rest => some (s, { rest, written := .literal s :: c.written })
  | .word s :: rest =>
    if s == "true" || s == "false" then some (s, { rest, written := .word s :: c.written }) else none
  | .punct '-' _ :: .literal s :: rest =>
    if Ahead.isNumberText s then
      some ("-" ++ s, { rest, written := .literal s :: .punct '-' false :: c.written })
    else none
  | _ => none

/-! ## Groups -/

/-- A group whose body is read to its end. -/
def inGroup {α : Type} (d : Delimiter) (body : Reader α) : Reader α := fun c =>
  match c.rest with
  | .group d' ts :: rest =>
    if d = d' then
      match body { rest := ts, written := [] } with
      | some (a, inner) =>
        if inner.rest.isEmpty then
          some (a, { rest, written := .group d inner.written.reverse :: c.written })
        else none
      | none => none
    else none
  | _ => none

/-- A group of any kind, kept as it stands; its delimiter and body. -/
def anyGroup : Reader (Delimiter × List Token) := fun c =>
  match c.rest with
  | .group d ts :: rest => some ((d, ts), { rest, written := .group d ts :: c.written })
  | _ => none

/-- A group of one kind, kept as it stands. -/
def rawGroup (d : Delimiter) : Reader Unit := do
  require (Ahead.isGroup d)
  let _ ← anyGroup

/-! ## Repetition -/

/-- Takes rounds as long as they give a result and leave fewer tokens. -/
def iterate {α : Type} (step : α → Reader (Option α)) (a : α) (c : Cursor) : Option (α × Cursor) :=
  match step a c with
  | none => none
  | some (none, c') => some (a, c')
  | some (some a', c') =>
    if c'.rest.length < c.rest.length then iterate step a' c' else some (a', c')
termination_by c.rest.length

/-- Takes rounds that give nothing, as long as they want to go on and leave fewer tokens. -/
def rounds (step : Reader Bool) : Reader Unit :=
  iterate (fun _ => do if ← step then return some () else return none) ()

/-- Reads elements to the end of the tokens. -/
def untilEnd {α : Type} (element : Reader α) : Reader (List α) := do
  let reversed ← iterate (fun as => do
    if ← atEnd then return none
    let a ← element
    return some (a :: as)) []
  return reversed.reverse

/-- Reads elements with commas between them to the end of the tokens; a comma may stand last. -/
def commaSeparated {α : Type} (element : Reader α) : Reader (List α) := do
  let reversed ← iterate (fun as => do
    if ← atEnd then return none
    let a ← element
    unless ← atEnd do op ","
    return some (a :: as)) []
  return reversed.reverse

/-! ## What was written -/

/-- Reads and gives, beside the result, what was written; it is not added to what was written
before. -/
def captured {α : Type} (r : Reader α) : Reader (α × List Token) := fun c =>
  match r { rest := c.rest, written := [] } with
  | some (a, c') => some ((a, c'.written.reverse), { rest := c'.rest, written := c.written })
  | none => none

/-- Adds tokens to what was written. -/
def write (ts : List Token) : Reader Unit := fun c =>
  some ((), { c with written := ts.reverse ++ c.written })

/-- Reads and gives, beside the result, what was written. -/
def recorded {α : Type} (r : Reader α) : Reader (α × List Token) := do
  let (a, ts) ← captured r
  write ts
  return (a, ts)

/-- What a reader writes; it is not added to what was written before. -/
def tokensOf (r : Reader Unit) : Reader (List Token) := do
  let (_, ts) ← captured r
  return ts

/-- Reads and writes nothing. -/
def unwritten {α : Type} (r : Reader α) : Reader α := do
  let (a, _) ← captured r
  return a

/-! ## What stood there -/

/-- Reads and gives, beside the result, the tokens read as they stood. -/
def consumed {α : Type} (r : Reader α) : Reader (α × List Token) := fun c =>
  match r c with
  | some (a, c') => some ((a, c.rest.take (c.rest.length - c'.rest.length)), c')
  | none => none

/-- Reads, and keeps the tokens read as they stood if the result says so. -/
def verbatimIf {α : Type} (r : Reader (α × Bool)) : Reader α := do
  let (((a, asStood), written), stood) ← consumed (captured r)
  write (if asStood then stood else written)
  return a

/-- Reads, and keeps the tokens read as they stood. -/
def verbatim {α : Type} (r : Reader α) : Reader α :=
  verbatimIf do
    let a ← r
    return (a, true)

/-! ## Looking ahead -/

/-- What a reader would give, without reading. -/
def tryAhead {α : Type} (r : Reader α) : Reader (Option α) := fun c =>
  some ((r c).map Prod.fst, c)

/-- Reads all tokens of a list. -/
def readAll {α : Type} (r : Reader α) (ts : List Token) : Option α :=
  match r { rest := ts, written := [] } with
  | some (a, c) => if c.rest.isEmpty then some a else none
  | none => none

end Reader

end ObservableStore.Source
