import ObservableStore.Text.Ranges
import ObservableStore.Toml.Reader
import ObservableStore.Toml.Value

/-!
# Numbers, dates and times

Integers have 64 bits. A number with a fraction or an exponent that is too large for a double is no
number; one that is too large below zero is minus infinity. Dates are checked against the calendar.
-/

namespace ObservableStore.Toml

/-- Whether a character is a digit. -/
def isDigit (c : Char) : Bool := '0' ≤ c && c ≤ '9'

/-- Whether a character is a hexadecimal digit. -/
def isHexDigit (c : Char) : Bool := (Text.hexValue? c).isSome

/-- The number that digits write in a base. -/
def valueOf (base : Nat) (digits : List Char) : Nat :=
  digits.foldl (fun n c => n * base + (Text.hexValue? c).getD 0) 0

namespace Reader

/-- Digits that follow a digit; single underscores may stand between digits. -/
def moreDigits (p : Char → Bool) : List Char → Option (List Char × List Char)
  | '_' :: c :: rest =>
    if p c then (moreDigits p rest).map fun found => (c :: found.1, found.2)
    else some ([], '_' :: c :: rest)
  | c :: rest =>
    if p c then (moreDigits p rest).map fun found => (c :: found.1, found.2)
    else some ([], c :: rest)
  | [] => some ([], [])

/-- Digits between which single underscores may stand. -/
def digits (p : Char → Bool) : Reader (List Char) := do
  let first ← one p
  let more ← moreDigits p
  return first :: more

/-- A sign, if there is one: whether it is a minus. -/
def sign : Reader Bool := do
  match ← optional (one fun c => c == '+' || c == '-') with
  | some c => return c == '-'
  | none => return false

/-- The digits of a number without needless zeros in front. -/
def wholeDigits : Reader (List Char) := do
  match ← optional (char '0') with
  | some _ => return ['0']
  | none => digits isDigit

/-! ## Integers -/

/-- An integer from its sign and its size, if it has at most 64 bits. -/
def integerOf (negative : Bool) (size : Nat) : Reader Value :=
  if negative then
    if size ≤ 0x8000000000000000 then return .integer (-size) else refuse
  else
    if size < 0x8000000000000000 then return .integer size else refuse

/-- The digits of an integer in a base that its first two characters name. -/
def basedInteger (mark : String) (base : Nat) (p : Char → Bool) : Reader Value := do
  text mark
  let ds ← digits p
  integerOf false (valueOf base ds)

/-- An integer in base ten. -/
def decimalInteger : Reader Value := do
  let negative ← sign
  let ds ← wholeDigits
  integerOf negative (valueOf 10 ds)

/-- An integer. -/
def integer : Reader Value :=
  orElse (basedInteger "0x" 16 isHexDigit)
    (orElse (basedInteger "0o" 8 fun c => '0' ≤ c && c ≤ '7')
      (orElse (basedInteger "0b" 2 fun c => c == '0' || c == '1') decimalInteger))

/-! ## Numbers with a fraction or an exponent -/

/-- An exponent. -/
def exponent : Reader Int := do
  let _ ← one fun c => c == 'e' || c == 'E'
  let negative ← sign
  let ds ← digits isDigit
  return if negative then -(valueOf 10 ds) else valueOf 10 ds

/-- A fraction. -/
def fraction : Reader (List Char) := do
  char '.'
  digits isDigit

/-- A fraction, an exponent or both. -/
def fractionOrExponent : Reader (List Char × Int) := do
  match ← optional fraction with
  | some ds =>
    let e ← optional exponent
    return (ds, e.getD 0)
  | none =>
    let e ← exponent
    return ([], e)

/-- The number nearest to a decimal number, if there is one or it is minus infinity. -/
def realOf (d : Decimal) : Reader Value :=
  if d.exceeds then
    if d.negative then return .real (.infinite true) else refuse
  else return .real (.finite d)

/-- A number with a fraction or an exponent. -/
def finiteReal : Reader Value := do
  let negative ← sign
  let whole ← wholeDigits
  let (part, e) ← fractionOrExponent
  realOf ⟨negative, valueOf 10 (whole ++ part), e - part.length⟩

/-- Infinity, or what is no number. -/
def specialReal : Reader Value := do
  let negative ← sign
  orElse (do text "inf"; return .real (.infinite negative))
    (do text "nan"; return .real .notANumber)

/-- A number that is no integer. -/
def real : Reader Value := orElse finiteReal specialReal

/-! ## Dates and times -/

/-- A number of a fixed count of digits in a range. -/
def fixed (count low high : Nat) : Reader Nat := do
  let ds ← exactly count isDigit
  let n := valueOf 10 ds
  if low ≤ n ∧ n ≤ high then return n else refuse

/-- The number of days in a month. -/
def daysIn (year month : Nat) : Nat :=
  if month = 2 then
    if year % 4 = 0 ∧ (year % 100 ≠ 0 ∨ year % 400 = 0) then 29 else 28
  else if month = 4 ∨ month = 6 ∨ month = 9 ∨ month = 11 then 30
  else 31

/-- A date of the calendar. -/
def date : Reader Unit := do
  let year ← fixed 4 0 9999
  char '-'
  let month ← fixed 2 1 12
  char '-'
  let _ ← fixed 2 1 (daysIn year month)

/-- Hours and minutes. -/
def hoursAndMinutes : Reader Unit := do
  let _ ← fixed 2 0 23
  char ':'
  let _ ← fixed 2 0 59

/-- A time of day; a leap second is allowed for. -/
def time : Reader Unit := do
  hoursAndMinutes
  char ':'
  let _ ← fixed 2 0 60
  let _ ← optional do
    char '.'
    let _ ← one isDigit
    span isDigit

/-- The distance from universal time. -/
def offset : Reader Unit :=
  orElse (do let _ ← one fun c => c == 'Z' || c == 'z')
    (do
      let _ ← one fun c => c == '+' || c == '-'
      hoursAndMinutes)

/-- A date, a time of day or both. -/
def moment : Reader Value := do
  let (_, written) ← recorded (orElse
    (do
      date
      let _ ← optional do
        let _ ← one fun c => c == 'T' || c == 't' || c == ' '
        time
        optional offset)
    time)
  return .moment (String.ofList written)

end Reader

end ObservableStore.Toml
