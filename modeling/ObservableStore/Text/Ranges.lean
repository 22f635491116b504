/-!
# Sets of code points written as ranges

Properties of characters are data of a standard. They are written here the way the standard's own
lists are: hexadecimal code points, `lo-hi` for a run, `lo-hi/2` for every second code point of a
run, and `:target` behind an entry of a mapping for the image of its first code point (the others
are moved by the same amount).

`Ranges.ofText` reads such a list once; `Ranges.mem` and `Ranges.map?` ask it.
-/

namespace ObservableStore.Text

/-- Code points `low`, `low + step`, … up to `high`, sent to `target`, `target + step`, …. -/
structure CodeRange where
  low : Nat
  high : Nat
  step : Nat
  target : Nat
deriving Repr, DecidableEq

/-- A set of code points as a list of runs. -/
abbrev Ranges := List CodeRange

namespace CodeRange

/-- Whether a code point lies on the run. -/
def mem (r : CodeRange) (n : Nat) : Bool :=
  r.low ≤ n && n ≤ r.high && (n - r.low) % r.step == 0

/-- The image of a code point of the run. -/
def image (r : CodeRange) (n : Nat) : Nat :=
  r.target + (n - r.low)

end CodeRange

/-! ## Reading a list -/

/-- The value of a hexadecimal digit. -/
def hexValue? (c : Char) : Option Nat :=
  if '0' ≤ c ∧ c ≤ '9' then some (c.toNat - 48)
  else if 'a' ≤ c ∧ c ≤ 'f' then some (c.toNat - 87)
  else if 'A' ≤ c ∧ c ≤ 'F' then some (c.toNat - 55)
  else none

/-- The number that a list of hexadecimal digits writes, other characters being left out. -/
def hexNumber (cs : List Char) : Nat :=
  cs.foldl (fun n c => match hexValue? c with
    | some d => n * 16 + d
    | none => n) 0

/-- One entry of a list: `lo`, `lo-hi` or `lo-hi/step`, with `:target` behind it in a mapping. -/
def CodeRange.ofEntry (cs : List Char) : CodeRange :=
  let run := cs.takeWhile (· ≠ ':')
  let target := (cs.dropWhile (· ≠ ':')).drop 1
  let bounds := run.takeWhile (· ≠ '/')
  let step := (run.dropWhile (· ≠ '/')).drop 1
  let low := hexNumber (bounds.takeWhile (· ≠ '-'))
  let high := (bounds.dropWhile (· ≠ '-')).drop 1
  { low
    high := if high.isEmpty then low else hexNumber high
    step := if step.isEmpty then 1 else hexNumber step
    target := if target.isEmpty then low else hexNumber target }

/-- The entries of a text: its runs of characters other than blanks and line ends; `entry` is the
current one, reversed. -/
def entriesOf (entry : List Char) : List Char → List (List Char)
  | [] => if entry.isEmpty then [] else [entry.reverse]
  | c :: rest =>
    if c = ' ' ∨ c = '\n' then
      if entry.isEmpty then entriesOf [] rest else entry.reverse :: entriesOf [] rest
    else entriesOf (c :: entry) rest

/-- The list that a text of entries writes. -/
def Ranges.ofText (s : String) : Ranges :=
  (entriesOf [] s.toList).map CodeRange.ofEntry

/-! ## Asking a list -/

/-- Whether a code point is in the set. -/
def Ranges.mem (rs : Ranges) (n : Nat) : Bool :=
  rs.any (·.mem n)

/-- The image of a code point under a mapping, if the mapping has an entry for it. -/
def Ranges.map? (rs : Ranges) (n : Nat) : Option Nat :=
  (rs.find? (·.mem n)).map (·.image n)

end ObservableStore.Text
