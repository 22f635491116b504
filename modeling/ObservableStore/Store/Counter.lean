import ObservableStore.Store.Field

/-!
# Counters

A counter is a store with a count and a label.
-/

namespace ObservableStore.Store.Counter

/-- The state of a counter. -/
def state (count : Int) (label : String) : Record FieldValue :=
  [("count", .integer .signed64 count), ("label", .text label)]

/-- Counts one more; the count wraps around. -/
def increment (s : Store FieldValue) : Store FieldValue :=
  (s.step (.edit "count" (Transform.add 1).apply)).2

/-- Gives the counter another label. -/
def rename (s : Store FieldValue) (label : String) : Store FieldValue :=
  (s.step (.edit "label" (Transform.setText label).apply)).2

end ObservableStore.Store.Counter
