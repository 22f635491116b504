/-!
# Values of a configuration document

A document is a table of values by key. A table remembers how it came about, because a table that
is complete may not be written again in another way.
-/

namespace ObservableStore.Toml

/-- The decimal number `± digits · 10 ^ exponent`. -/
structure Decimal where
  negative : Bool
  digits : Nat
  exponent : Int
deriving DecidableEq, Repr

namespace Decimal

/-- The least size that rounds to no double: halfway between the largest double and the next power
of two. -/
def limit : Nat := Nat.pow 2 1024 - Nat.pow 2 970

/-- How many digits stand in front of the point; not positive when the number is below one. -/
def magnitude (d : Decimal) : Int :=
  (Nat.toDigits 10 d.digits).length + d.exponent

/-- Whether the size of a decimal number rounds to no double. The limit has 309 digits in front of
the point, so other numbers need no calculation. -/
def exceeds (d : Decimal) : Bool :=
  if d.digits = 0 ∨ d.magnitude < 309 then false
  else if 309 < d.magnitude then true
  else decide (limit * Nat.pow 10 (-d.exponent).toNat ≤ d.digits * Nat.pow 10 d.exponent.toNat)

end Decimal

/-- A number with a fraction or an exponent, or a value beyond the numbers. -/
inductive Real where
  | finite (d : Decimal)
  | infinite (negative : Bool)
  | notANumber
deriving DecidableEq, Repr

/-- How a table came about. -/
inductive TableKind where
  /-- Written between braces. -/
  | inline
  /-- Written below a header of its own. -/
  | header
  /-- Made because a longer header leads through it. -/
  | implied
  /-- Made because a dotted key leads through it. -/
  | dotted
deriving DecidableEq, Repr

/-- A value. -/
inductive Value where
  | text (s : String)
  | integer (n : Int)
  | real (r : Real)
  | boolean (b : Bool)
  /-- A date, a time of day or both, as written. -/
  | moment (written : String)
  | array (items : List Value)
  | table (kind : TableKind) (entries : List (String × Value))
  /-- Tables that share a header, the first one first. -/
  | tables (items : List (List (String × Value)))
deriving Repr, Inhabited

/-- The entries of a table. -/
abbrev Table := List (String × Value)

namespace Table

/-- Sets the value of a key; a new key comes last. -/
def set (key : String) (v : Value) : Table → Table
  | [] => [(key, v)]
  | (k, w) :: rest => if key = k then (k, v) :: rest else (k, w) :: set key v rest

/-- Changes the table that a path leads to, given how the table where the path starts came about.
Tables that are missing on the way are made in the given way. Tables between braces are complete,
and a dotted key leads through no table that has a header. Of tables that share a header, the last
one is meant. -/
def changeAt (made : TableKind) (change : TableKind → Table → Option Table) :
    List String → TableKind → Table → Option Table
  | [], kind, t => change kind t
  | key :: rest, _, t =>
    match t.lookup key with
    | none => do
      let inner ← changeAt made change rest made []
      return set key (.table made inner) t
    | some (.table kind inner) =>
      if kind = .inline ∨ (made = .dotted ∧ kind = .header) then none
      else do
        let inner ← changeAt made change rest kind inner
        return set key (.table kind inner) t
    | some (.tables items) => do
      let inner ← changeAt made change rest .header (items.getLast?.getD [])
      return set key (.tables (items.dropLast ++ [inner])) t
    | some _ => none

/-- Adds a value behind a dotted key: its last part is new, and the parts before it lead to a table
made by dotted keys. -/
def assign (kind : TableKind) (path : List String) (key : String) (v : Value) (t : Table) :
    Option Table :=
  changeAt .dotted (fun reached inner =>
    if (reached == .dotted) == path.isEmpty || (inner.lookup key).isSome then none
    else some (inner ++ [(key, v)])) path kind t

end Table

end ObservableStore.Toml
