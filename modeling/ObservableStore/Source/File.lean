import ObservableStore.Source.Grammar.Items
import ObservableStore.Source.Grammar.Statements
import ObservableStore.Token.Tree

/-!
# Reading source text

The rules of the grammar are closed with a bound on nesting (`Grammar.rules`), and a text is read by
its tokens: a file of items, a single declaration, a path or a type.
-/

namespace ObservableStore.Source

namespace Grammar

open Reader

/-- The rules of the grammar, to a depth of nesting. -/
def rules : Nat → Rules
  | 0 => Rules.refusing
  | depth + 1 =>
    { type := fun plus c => type (rules depth) plus c
      argument := fun c => argument (rules depth) c
      parameter := fun anonymous c => parameter (rules depth) anonymous c
      unary := fun structs c => unary (rules depth) structs c
      climb := fun structs base left c => climb (rules depth) structs base left c
      leading := fun c => leading (rules depth) c
      pattern := fun c => pattern (rules depth) c
      statements := fun c => statements (rules depth) c
      item := fun c => item (rules depth) c
      useTree := fun mayBeRooted c => useTree (rules depth) mayBeRooted c }

/-- The rules for a list of tokens: none of its texts nests more deeply. -/
def rulesFor (ts : List Token) : Rules :=
  rules (8 * Token.sizeAll ts + 16)

/-- Reads all tokens of a text with a rule. -/
def readText {α : Type} (rule : Rules → Reader α) (text : List Char) : Option α := do
  let ts ← Token.ofChars text
  readAll (rule (rulesFor ts)) ts

end Grammar

/-! ## Files -/

/-- Leaves out a first line that names an interpreter. A line that begins an attribute names
none. -/
def dropInterpreter : List Char → List Char
  | '#' :: '!' :: rest =>
    if (Lexeme.skipBlanks rest).head? = some '[' then '#' :: '!' :: rest
    else rest.dropWhile (· ≠ '\n')
  | cs => cs

/-- The items of a file. -/
def itemsOfText (text : String) : Option (List Item) :=
  Grammar.readText
    (fun r => do
      Grammar.innerAttributes r
      Reader.untilEnd r.item)
    (dropInterpreter (Token.dropMark text.toList))

/-- A single declaration. -/
def declarationOfText (text : String) : Option Declaration :=
  Grammar.readText Grammar.declaration text.toList

/-- The path of a type, with arguments that are not kept. -/
def pathOfText (text : String) : Option Path :=
  Grammar.readText (fun r => do let p ← Grammar.pathOf r false; return p.path) text.toList

end ObservableStore.Source
