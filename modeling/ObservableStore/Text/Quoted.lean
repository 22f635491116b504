import ObservableStore.Text.Printable

/-!
# Quoted text

How a text is shown between double quotes: quotes, backslashes and the three common controls get a
backslash, and a character that has no printed form of its own is written by its code point. The
same rule serves the debug text of values (`Quoted.debug`) and the string literals of a token text
(`Quoted.literal`), which differ only in how a null character before an octal digit is written.
-/

namespace ObservableStore.Text

/-- A digit below sixteen, in lower case. -/
def hexDigit (n : Nat) : Char :=
  if n < 10 then Char.ofNat (48 + n) else Char.ofNat (87 + n)

/-- A number in lower-case hexadecimal, `fuel` digits at most. -/
def hexDigitsAux : Nat → Nat → List Char → List Char
  | 0, _, acc => acc
  | fuel + 1, n, acc =>
    if n < 16 then hexDigit n :: acc else hexDigitsAux fuel (n / 16) (hexDigit (n % 16) :: acc)

/-- A code point in lower-case hexadecimal without leading zeros. -/
def hexDigits (n : Nat) : List Char :=
  hexDigitsAux 8 n []

namespace Quoted

/-- A character as it stands between double quotes. -/
def escape (c : Char) : List Char :=
  if c == Char.ofNat 0 then ['\\', '0']
  else if c == '\t' then ['\\', 't']
  else if c == '\r' then ['\\', 'r']
  else if c == '\n' then ['\\', 'n']
  else if c == '\\' then ['\\', '\\']
  else if c == '"' then ['\\', '"']
  else if isPrintable c && !isGraphemeExtend c then [c]
  else ['\\', 'u', '\x7b'] ++ hexDigits c.toNat ++ ['\x7d']

/-- A text between double quotes, in debug form. -/
def debug (s : String) : String :=
  String.ofList ('"' :: (s.toList.flatMap escape ++ ['"']))

/-- The characters of a string literal's body; a null character before an octal digit is written
`\x00`, so that the digit is not read into it. -/
def literalBody : List Char → List Char
  | [] => []
  | c :: rest =>
    (match rest with
      | d :: _ =>
        if c == Char.ofNat 0 && ('0' ≤ d && d ≤ '7') then ['\\', 'x', '0', '0'] else escape c
      | [] => escape c) ++ literalBody rest

/-- A string literal with the given value. -/
def literal (cs : List Char) : List Char :=
  '"' :: (literalBody cs ++ ['"'])

end Quoted

end ObservableStore.Text
