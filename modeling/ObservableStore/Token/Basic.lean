/-!
# Tokens of source text

Source text is read as a tree of tokens: words, single punctuation characters, literals, and groups
between matching delimiters. A punctuation character remembers whether another one follows it at
once, which is how operators of several characters are told from neighbours.
-/

namespace ObservableStore

/-- The delimiters of a group. -/
inductive Delimiter where
  | parenthesis
  | bracket
  | brace
deriving DecidableEq, Repr

/-- A token of source text. -/
inductive Token where
  /-- An identifier or keyword, with its mark `r#` if it has one. -/
  | word (text : String)
  /-- A punctuation character; `joint` when it belongs with the next one. -/
  | punct (c : Char) (joint : Bool)
  /-- A literal as it is written. -/
  | literal (text : String)
  /-- The tokens between two delimiters. -/
  | group (delimiter : Delimiter) (body : List Token)
deriving Repr, Inhabited

namespace Token

mutual

/-- The number of tokens in a tree, its delimiters included. -/
def size : Token → Nat
  | .group _ body => 2 + sizeAll body
  | .word _ => 1
  | .punct _ _ => 1
  | .literal _ => 1

/-- The number of tokens in a list of trees. -/
def sizeAll : List Token → Nat
  | [] => 0
  | t :: ts => size t + sizeAll ts

end

/-- The characters of an operator as tokens, each joined to the next. -/
def ofOperator : List Char → List Token
  | [] => []
  | [c] => [.punct c false]
  | c :: cs => .punct c true :: ofOperator cs

/-! ## Token text

Tokens are written with one blank between them, except behind a joint punctuation character. Braces
have blanks inside; parentheses and brackets have none. -/

/-- What stands before the body of a group. -/
def opening : Delimiter → String
  | .parenthesis => "("
  | .bracket => "["
  | .brace => "\x7b "

/-- What stands behind the body of a group. -/
def closing : Delimiter → Bool → String
  | .parenthesis, _ => ")"
  | .bracket, _ => "]"
  | .brace, true => "\x7d"
  | .brace, false => " \x7d"

/-- Whether the next token follows without a blank. -/
def isJoint : Token → Bool
  | .punct _ joint => joint
  | _ => false

mutual

/-- The text of one token. -/
def textOf : Token → String
  | .word s => s
  | .punct c _ => String.ofList [c]
  | .literal s => s
  | .group d body => opening d ++ textOfAll body ++ closing d body.isEmpty

/-- The text of a list of tokens. -/
def textOfAll : List Token → String
  | [] => ""
  | t :: ts => textOf t ++ (if ts.isEmpty || t.isJoint then "" else " ") ++ textOfAll ts

end

/-! ## Flat text

The same tokens with one blank between any two characters of punctuation, words, literals and
delimiters. -/

/-- The two delimiter characters. -/
def delimiters : Delimiter → String × String
  | .parenthesis => ("(", ")")
  | .bracket => ("[", "]")
  | .brace => ("\x7b", "\x7d")

mutual

/-- The pieces of one token. -/
def piecesOf : Token → List String
  | .word s => [s]
  | .punct c _ => [String.ofList [c]]
  | .literal s => [s]
  | .group d body => (delimiters d).1 :: (piecesOfAll body ++ [(delimiters d).2])

/-- The pieces of a list of tokens. -/
def piecesOfAll : List Token → List String
  | [] => []
  | t :: ts => piecesOf t ++ piecesOfAll ts

end

/-- The flat text of a list of tokens. -/
def flatText (ts : List Token) : String :=
  " ".intercalate (piecesOfAll ts)

end Token

end ObservableStore
