import ObservableStore.Text.Quoted
import ObservableStore.Token.Lexeme

/-!
# Nesting lexemes

Lexemes become tokens when every delimiter that opens a group has found the one that closes it.
A documentation comment becomes the attribute it stands for: a number sign and a bracketed
`doc = "…"`.
-/

namespace ObservableStore

namespace Token

/-- The attribute that a documentation comment stands for, last token first. -/
def ofDoc (inner : Bool) (text : List Char) : List Token :=
  let content : Token := .group .bracket
    [.word "doc", .punct '=' false, .literal (String.ofList (Text.Quoted.literal text))]
  if inner then [content, .punct '!' false, .punct '#' false] else [content, .punct '#' false]

/-- Nests lexemes. `frames` holds the groups that are open, innermost first, each with the tokens
before it; `done` holds the tokens of the innermost group. Both are reversed. -/
def nest : List (Delimiter × List Token) → List Token → List Lexeme → Option (List Token)
  | [], done, [] => some done.reverse
  | _ :: _, _, [] => none
  | frames, done, .opening d :: rest => nest ((d, done) :: frames) [] rest
  | [], _, .closing _ :: _ => none
  | (d', outer) :: frames, done, .closing d :: rest =>
    if d = d' then nest frames (.group d done.reverse :: outer) rest else none
  | frames, done, .word w :: rest => nest frames (.word (String.ofList w) :: done) rest
  | frames, done, .punct c joint :: rest => nest frames (.punct c joint :: done) rest
  | frames, done, .literal l :: rest => nest frames (.literal (String.ofList l) :: done) rest
  | frames, done, .doc inner text :: rest => nest frames (ofDoc inner text ++ done) rest

/-- The mark that a text may begin with to name its encoding. -/
def byteOrderMark : Char := Char.ofNat 0xFEFF

/-- Leaves out a byte order mark at the beginning. -/
def dropMark : List Char → List Char
  | c :: rest => if c = byteOrderMark then rest else c :: rest
  | [] => []

/-- The tokens of a text, or nothing when it is not made of tokens or its groups do not close. -/
def ofChars (cs : List Char) : Option (List Token) :=
  (Lexeme.scan (dropMark cs)).bind (nest [] [])

/-- The tokens of a text. -/
def ofText (s : String) : Option (List Token) :=
  ofChars s.toList

end Token

end ObservableStore
