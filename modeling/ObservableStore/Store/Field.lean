import ObservableStore.Shown
import ObservableStore.Store.Basic

/-!
# Fields and their transforms

The values that fields hold, and the ways in which mutators change them. Integers have a fixed
width and wrap around. A transform leaves a value of another kind as it is.
-/

namespace ObservableStore.Store

/-- The kinds of integers. -/
inductive IntegerKind where
  | signed32
  | signed64
  | unsigned64
deriving DecidableEq, Repr

/-- The integer of a kind that a number wraps around to. -/
def IntegerKind.wrap : IntegerKind → Int → Int
  | .signed32, n => Int.bmod n 0x100000000
  | .signed64, n => Int.bmod n 0x10000000000000000
  | .unsigned64, n => n % 0x10000000000000000

/-- The kinds of values. -/
inductive FieldKind where
  | text
  | integer (kind : IntegerKind)
  /-- Lists of integers of 32 bits. -/
  | lists
deriving DecidableEq, Repr

/-- The value of a field. -/
inductive FieldValue where
  | text (s : String)
  | integer (kind : IntegerKind) (n : Int)
  | lists (items : List (List Int))
deriving DecidableEq, Repr

/-- How the value of a field is shown. -/
def FieldValue.shown : FieldValue → Shown
  | .text s => .ofText s
  | .integer _ n => .ofInt n
  | .lists items => .sequence (items.map fun item => .sequence (item.map Shown.ofInt))

/-- How a record is shown, under the name of its type. -/
def shownRecord (type : String) (r : Record FieldValue) : Shown :=
  .record type (r.map fun e => (e.1, e.2.shown))

/-- A way to change a value. -/
inductive Transform where
  /-- Puts the characters of a text in the opposite order. -/
  | reverse
  | append (s : String)
  | setText (s : String)
  | add (n : Int)
  | multiply (n : Int)
  | setInteger (n : Int)
  | push (items : List Int)
  | pop
  | clear
  /-- Changes nothing. -/
  | keep
deriving DecidableEq, Repr

/-- The value that a transform makes of a value. -/
def Transform.apply : Transform → FieldValue → FieldValue
  | .reverse, .text s => .text (String.ofList s.toList.reverse)
  | .append t, .text s => .text (s ++ t)
  | .setText t, .text _ => .text t
  | .add n, .integer k m => .integer k (k.wrap (m + n))
  | .multiply n, .integer k m => .integer k (k.wrap (m * n))
  | .setInteger n, .integer k _ => .integer k (k.wrap n)
  | .push item, .lists items => .lists (items ++ [item.map IntegerKind.signed32.wrap])
  | .pop, .lists items => .lists items.dropLast
  | .clear, .lists _ => .lists []
  | _, v => v

end ObservableStore.Store
