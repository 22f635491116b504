import ObservableStore.Text.Blank
import ObservableStore.Text.Identifier
import ObservableStore.Text.Ranges
import ObservableStore.Token.Basic

/-!
# Lexemes

The flat pieces that source text is cut into before they are nested: words, punctuation characters,
literals, documentation comments and single delimiters. Each recogniser takes the characters from
where its lexeme begins and gives what follows it, or nothing when no such lexeme begins there.

Blanks and comments between lexemes are skipped (`skipBlanks`); a comment that documents something
is a lexeme. Strings are followed by an automaton that reads one character at a time, so that an
escape, a continued line or a bare carriage return is judged where it stands.
-/

namespace ObservableStore

/-- A flat piece of source text. -/
inductive Lexeme where
  | word (text : List Char)
  | punct (c : Char) (joint : Bool)
  | literal (text : List Char)
  /-- A documentation comment, about the enclosing item when `inner`. -/
  | doc (inner : Bool) (text : List Char)
  | opening (d : Delimiter)
  | closing (d : Delimiter)
deriving Repr, DecidableEq

namespace Lexeme

/-- Whether a text begins with the given characters. -/
def startsWith (mark : String) (cs : List Char) : Bool :=
  mark.toList.isPrefixOf cs

/-- What follows the given characters at the beginning of a text. -/
def after? (mark : String) (cs : List Char) : Option (List Char) :=
  if startsWith mark cs then some (cs.drop mark.toList.length) else none

/-! ## Comments and blanks -/

/-- A line up to its end; a carriage return before the line end is not part of it. -/
def line : List Char → List Char × List Char
  | [] => ([], [])
  | '\n' :: rest => ([], '\n' :: rest)
  | '\r' :: '\n' :: rest => ([], '\n' :: rest)
  | c :: rest => (c :: (line rest).1, (line rest).2)

/-- What follows the end of a block comment in which `depth` comments are open. -/
def blockRest : Nat → List Char → Option (List Char)
  | depth, '/' :: '*' :: rest => blockRest (depth + 1) rest
  | depth, '*' :: '/' :: rest => if depth ≤ 1 then some rest else blockRest (depth - 1) rest
  | depth, _ :: rest => blockRest depth rest
  | _, [] => none

/-- What follows a block comment. -/
def blockComment (cs : List Char) : Option (List Char) :=
  if startsWith "/*" cs then blockRest 0 cs else none

/-- What follows one blank or one comment that documents nothing. -/
def blank? (cs : List Char) : Option (List Char) :=
  if startsWith "//" cs && (!startsWith "///" cs || startsWith "////" cs) && !startsWith "//!" cs then
    some (line cs).2
  else if startsWith "/**/" cs then some (cs.drop 4)
  else if startsWith "/*" cs && (!startsWith "/**" cs || startsWith "/***" cs) &&
      !startsWith "/*!" cs then
    blockComment cs
  else match cs with
    | c :: rest => if Text.isLexicalBlank c then some rest else none
    | [] => none

/-- Takes steps as long as they leave less to read. -/
def exhaust (step : List Char → Option (List Char)) (cs : List Char) : List Char :=
  match step cs with
  | none => cs
  | some rest => if rest.length < cs.length then exhaust step rest else cs
termination_by cs.length

/-- Skips blanks and comments that document nothing. -/
def skipBlanks (cs : List Char) : List Char :=
  exhaust blank? cs

/-- Whether every carriage return of a text is followed by a line end. -/
def returnsPaired : List Char → Bool
  | [] => true
  | '\r' :: '\n' :: rest => returnsPaired rest
  | '\r' :: _ => false
  | _ :: rest => returnsPaired rest

/-- The text of a block comment from its third character on, without its end. -/
def blockText (cs rest : List Char) : List Char :=
  (cs.take (cs.length - rest.length - 2)).drop 3

/-- A documentation comment: whether it is inner, its text, and what follows. -/
def doc? (cs : List Char) : Option (Bool × List Char × List Char) :=
  let found :=
    if startsWith "//!" cs then
      let (text, rest) := line (cs.drop 3)
      some (true, text, rest)
    else if startsWith "/*!" cs then
      (blockComment cs).map fun rest => (true, blockText cs rest, rest)
    else if startsWith "///" cs then
      if startsWith "////" cs then none
      else
        let (text, rest) := line (cs.drop 3)
        some (false, text, rest)
    else if startsWith "/**" cs && !startsWith "/***" cs then
      (blockComment cs).map fun rest => (false, blockText cs rest, rest)
    else none
  found.filter fun (_, text, _) => returnsPaired text

/-! ## Words -/

/-- What follows a word that has no mark. -/
def plainWord? : List Char → Option (List Char)
  | [] => none
  | c :: rest =>
    if Text.isIdentifierStart c then some (rest.dropWhile Text.isIdentifierContinue) else none

/-- What was read between two positions of one text. -/
def between (cs rest : List Char) : List Char :=
  cs.take (cs.length - rest.length)

/-- The words that cannot carry the mark `r#`. -/
def isUnmarkable (w : List Char) : Bool :=
  w == "_".toList || w == "super".toList || w == "self".toList || w == "Self".toList ||
    w == "crate".toList

/-- What follows a word, marked or not. -/
def anyWord? (cs : List Char) : Option (List Char) :=
  match after? "r#" cs with
  | some inner => (plainWord? inner).filter fun rest => !isUnmarkable (between inner rest)
  | none => plainWord? cs

/-- The beginnings of literals that look like words. -/
def literalMarks : List String :=
  ["r\"", "r#\"", "r##", "b\"", "b'", "br\"", "br#", "c\"", "cr\"", "cr#"]

/-- What follows a word, where no literal begins. -/
def word? (cs : List Char) : Option (List Char) :=
  if literalMarks.any (startsWith · cs) then none else anyWord? cs

/-! ## Literals: strings -/

/-- Skips the suffix behind a literal. -/
def skipSuffix (cs : List Char) : List Char :=
  (plainWord? cs).getD cs

/-- The three kinds of string literals. -/
inductive StringKind where
  | text
  | bytes
  | terminated
deriving DecidableEq, Repr

/-- Whether a character can stand in a string literal as it is. -/
def StringKind.allows : StringKind → Char → Bool
  | .text, _ => true
  | .bytes, c => c.toNat < 128
  | .terminated, c => c != Char.ofNat 0

/-- Whether two digits can follow `\x`. -/
def StringKind.allowsHex (k : StringKind) (high low : Char) : Bool :=
  match Text.hexValue? high, Text.hexValue? low with
  | some h, some l =>
    match k with
    | .text => h < 8
    | .bytes => true
    | .terminated => !(h == 0 && l == 0)
  | _, _ => false

/-- Whether a single character can follow a backslash. -/
def StringKind.allowsEscape (k : StringKind) (c : Char) : Bool :=
  c == 'n' || c == 'r' || c == 't' || c == '\\' || c == '\'' || c == '"' ||
    (c == '0' && k != .terminated)

/-- Whether a number is the code point of a character. -/
def isScalar (n : Nat) : Bool :=
  n < 0xD800 || (0xDFFF < n && n < 0x110000)

/-- Where the automaton of string literals stands. -/
inductive StringState where
  | body
  /-- Behind a carriage return. -/
  | returned
  /-- Behind a backslash. -/
  | escape
  /-- Behind `\x`. -/
  | hexHigh
  /-- Behind the first digit of `\x`. -/
  | hexLow (high : Char)
  /-- Behind `\u`. -/
  | unicodeOpen
  /-- Among the digits of `\u`. -/
  | unicode (value digits : Nat)
  /-- In the blanks behind a backslash at the end of a line. -/
  | gap
  /-- Behind a carriage return among those blanks. -/
  | gapReturned
deriving DecidableEq, Repr

/-- What one character does to the automaton. -/
inductive StringStep where
  | refuse
  | finish
  | go (s : StringState)
deriving DecidableEq, Repr

/-- A character of the body. -/
def bodyStep (k : StringKind) (c : Char) : StringStep :=
  if c == '"' then .finish
  else if c == '\r' then .go .returned
  else if c == '\\' then .go .escape
  else if k.allows c then .go .body
  else .refuse

/-- A digit, an underscore or the closing brace of `\u`. -/
def unicodeStep (k : StringKind) (value digits : Nat) (c : Char) : StringStep :=
  match Text.hexValue? c with
  | some d => if digits == 6 then .refuse else .go (.unicode (value * 16 + d) (digits + 1))
  | none =>
    if c == '_' && 0 < digits then .go (.unicode value digits)
    else if c == '\x7d' && 0 < digits then
      if isScalar value && !(k == .terminated && value == 0) then .go .body else .refuse
    else .refuse

/-- One character of a string literal. -/
def stringStep (k : StringKind) : StringState → Char → StringStep
  | .body, c => bodyStep k c
  | .returned, c => if c == '\n' then .go .body else .refuse
  | .escape, c =>
    if c == 'x' then .go .hexHigh
    else if c == 'u' && k != .bytes then .go .unicodeOpen
    else if c == '\n' then .go .gap
    else if c == '\r' then .go .gapReturned
    else if k.allowsEscape c then .go .body
    else .refuse
  | .hexHigh, c => .go (.hexLow c)
  | .hexLow high, c => if k.allowsHex high c then .go .body else .refuse
  | .unicodeOpen, c => if c == '\x7b' then .go (.unicode 0 0) else .refuse
  | .unicode value digits, c => unicodeStep k value digits c
  | .gap, c =>
    if c == ' ' || c == '\t' || c == '\n' then .go .gap
    else if c == '\r' then .go .gapReturned
    else bodyStep k c
  | .gapReturned, c => if c == '\n' then .go .gap else .refuse

/-- What follows a string literal whose opening quote has been read. -/
def cooked (k : StringKind) : StringState → List Char → Option (List Char)
  | _, [] => none
  | s, c :: rest =>
    match stringStep k s c with
    | .refuse => none
    | .finish => some (skipSuffix rest)
    | .go s' => cooked k s' rest

/-- What follows the closing quote and `marks` number signs of a raw string literal. -/
def rawBody (k : StringKind) (marks : Nat) : List Char → Option (List Char)
  | [] => none
  | '\r' :: '\n' :: rest => rawBody k marks rest
  | c :: rest =>
    if c == '"' && (List.replicate marks '#').isPrefixOf rest then
      some (skipSuffix (rest.drop marks))
    else if c == '\r' then none
    else if c == '"' || k.allows c then rawBody k marks rest
    else none

/-- What follows a raw string literal whose letters have been read. -/
def raw (k : StringKind) (cs : List Char) : Option (List Char) :=
  let marks := (cs.takeWhile (· == '#')).length
  match cs.drop marks with
  | '"' :: rest => if marks ≤ 255 then rawBody k marks rest else none
  | _ => none

/-- What follows a string literal of any kind. -/
def string? (cs : List Char) : Option (List Char) :=
  match after? "\"" cs, after? "r" cs, after? "b\"" cs, after? "br" cs, after? "c\"" cs,
      after? "cr" cs with
  | some rest, _, _, _, _, _ => cooked .text .body rest
  | _, some rest, _, _, _, _ => raw .text rest
  | _, _, some rest, _, _, _ => cooked .bytes .body rest
  | _, _, _, some rest, _, _ => raw .bytes rest
  | _, _, _, _, some rest, _ => cooked .terminated .body rest
  | _, _, _, _, _, some rest => raw .terminated rest
  | _, _, _, _, _, _ => none

/-! ## Literals: characters -/

/-- What follows the digits and the closing brace of `\u`. -/
def unicodeRest (k : StringKind) : Nat → Nat → List Char → Option (List Char)
  | _, _, [] => none
  | value, digits, c :: rest =>
    match unicodeStep k value digits c with
    | .go (.unicode value digits) => unicodeRest k value digits rest
    | .go _ => some rest
    | _ => none

/-- What follows the one character of a character literal. -/
def oneCharacter (k : StringKind) : List Char → Option (List Char)
  | '\\' :: 'x' :: high :: low :: rest => if k.allowsHex high low then some rest else none
  | '\\' :: 'u' :: '\x7b' :: rest => if k == .text then unicodeRest k 0 0 rest else none
  | '\\' :: c :: rest => if k.allowsEscape c then some rest else none
  | ['\\'] => none
  | c :: rest => if k.allows c then some rest else none
  | [] => none

/-- What follows a character or byte literal. -/
def character? (cs : List Char) : Option (List Char) :=
  let body := match after? "b'" cs with
    | some inner => oneCharacter .bytes inner
    | none => (after? "'" cs).bind (oneCharacter .text)
  match body with
  | some ('\'' :: rest) => some (skipSuffix rest)
  | _ => none

/-! ## Literals: numbers -/

/-- Whether a character is a decimal digit. -/
def isDigit (c : Char) : Bool := '0' ≤ c && c ≤ '9'

/-- What follows the exponent of a number, or `before` when there is no exponent here. -/
def exponentRest (before : Option (List Char)) (signed valued : Bool) :
    List Char → Option (List Char)
  | [] => if valued then some [] else before
  | c :: rest =>
    if c == '+' || c == '-' then
      if valued then some (c :: rest)
      else if signed then before
      else exponentRest before true valued rest
    else if isDigit c then exponentRest before signed true rest
    else if c == '_' then exponentRest before signed valued rest
    else if valued then some (c :: rest) else before

/-- What follows the digits of a number with a point or an exponent. -/
def fractionRest (dotted : Bool) : List Char → Option (List Char)
  | [] => if dotted then some [] else none
  | c :: rest =>
    if isDigit c || c == '_' then fractionRest dotted rest
    else if c == '.' && !dotted then
      match rest with
      | d :: _ => if d == '.' || Text.isIdentifierStart d then none else fractionRest true rest
      | [] => fractionRest true rest
    else if c == 'e' || c == 'E' then
      exponentRest (if dotted then some (c :: rest) else none) false false rest
    else if dotted then some (c :: rest) else none

/-- The digits of a whole number in a base: what follows them, given whether a digit was seen. -/
def wholeRest (base : Nat) (seen : Bool) : List Char → Option (List Char)
  | [] => if seen then some [] else none
  | c :: rest =>
    if c == '_' then if !seen && base == 10 then none else wholeRest base seen rest
    else match Text.hexValue? c with
      | some d =>
        if d < base then wholeRest base true rest
        else if isDigit c then none
        else if seen then some (c :: rest) else none
      | none => if seen then some (c :: rest) else none

/-- What follows a number's suffix; a number must not run into a word. -/
def numberEnd (cs : List Char) : Option (List Char) :=
  match skipSuffix cs with
  | c :: rest => if Text.isIdentifierContinue c then none else some (c :: rest)
  | [] => some []

/-- What follows a number with a point or an exponent. -/
def fraction? : List Char → Option (List Char)
  | c :: rest => if isDigit c then (fractionRest false rest).bind numberEnd else none
  | [] => none

/-- What follows a whole number. -/
def whole? (cs : List Char) : Option (List Char) :=
  let digits := match after? "0x" cs, after? "0o" cs, after? "0b" cs with
    | some rest, _, _ => wholeRest 16 false rest
    | _, some rest, _ => wholeRest 8 false rest
    | _, _, some rest => wholeRest 2 false rest
    | _, _, _ => match cs with
      | c :: _ => if isDigit c || c == '_' then wholeRest 10 false cs else none
      | [] => none
  digits.bind numberEnd

/-- What follows a literal. -/
def literal? (cs : List Char) : Option (List Char) :=
  (string? cs).or ((character? cs).or ((fraction? cs).or (whole? cs)))

/-! ## Punctuation -/

/-- The punctuation characters. -/
def isPunct (c : Char) : Bool :=
  c ∈ "~!@#$%^&*-=+|;:,<.>/?'".toList

/-- A punctuation character; the slash of a comment is none. -/
def punctChar? (cs : List Char) : Option (Char × List Char) :=
  if startsWith "//" cs || startsWith "/*" cs then none
  else match cs with
    | c :: rest => if isPunct c then some (c, rest) else none
    | [] => none

/-- A punctuation character and whether the next one is joined to it. The quote of a lifetime is
joined to its word, which no second quote may close. -/
def punct? (cs : List Char) : Option (Lexeme × List Char) :=
  match punctChar? cs with
  | some ('\'', rest) =>
    match anyWord? rest with
    | some ('\'' :: _) => none
    | some ('#' :: _) => if startsWith "r#" rest then some (.punct '\'' true, rest) else none
    | some _ => some (.punct '\'' true, rest)
    | none => none
  | some (c, rest) => some (.punct c (punctChar? rest).isSome, rest)
  | none => none

/-! ## All lexemes -/

/-- The mark that stands for text that could not be read; it counts as a literal. -/
def errorMark : String := "(/*ERROR*/)"

/-- The delimiter that a character opens. -/
def opens? : Char → Option Delimiter
  | '(' => some .parenthesis
  | '[' => some .bracket
  | '\x7b' => some .brace
  | _ => none

/-- The delimiter that a character closes. -/
def closes? : Char → Option Delimiter
  | ')' => some .parenthesis
  | ']' => some .bracket
  | '\x7d' => some .brace
  | _ => none

/-- A literal, a punctuation character or a word. -/
def leaf? (cs : List Char) : Option (Lexeme × List Char) :=
  match literal? cs with
  | some rest => some (.literal (between cs rest), rest)
  | none =>
    match punct? cs with
    | some found => some found
    | none => (word? cs).map fun rest => (.word (between cs rest), rest)

/-- The lexeme at the beginning of a text, and what follows it. -/
def first? (cs : List Char) : Option (Lexeme × List Char) :=
  match doc? cs with
  | some (inner, text, rest) => some (.doc inner text, rest)
  | none =>
    if startsWith errorMark cs then
      some (.literal errorMark.toList, cs.drop errorMark.toList.length)
    else match cs with
      | [] => none
      | c :: rest =>
        match opens? c, closes? c with
        | some d, _ => some (.opening d, rest)
        | _, some d => some (.closing d, rest)
        | none, none => leaf? (c :: rest)

/-- The lexemes of a text that begins with no blank. -/
def scanFrom : List Char → Option (List Lexeme)
  | [] => some []
  | c :: tail =>
    match first? (c :: tail) with
    | none => none
    | some (l, rest) =>
      if (skipBlanks rest).length ≤ tail.length then (scanFrom (skipBlanks rest)).map (l :: ·)
      else none
termination_by cs => cs.length
decreasing_by
  simp only [List.length_cons]
  omega

/-- The lexemes of a text. -/
def scan (cs : List Char) : Option (List Lexeme) :=
  scanFrom (skipBlanks cs)

end Lexeme

end ObservableStore
