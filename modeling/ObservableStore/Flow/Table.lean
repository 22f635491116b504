import ObservableStore.Flow.Subscription

/-!
# Flows and their handles

A flow is a current value with subscriptions that receive every value emitted. A table holds flows
and the handles on them by name: a writer, which emits; views, which only show the value; and
subscriptions, which are no handles of the flow in the sense of keeping it alive. Once the writer
and all views of a flow are dropped, its subscriptions end when they have given all they hold.

A flow registers each subscription that is opened. That one was dropped shows at the next emit,
which leaves out what is dropped (`Cell.registered`).
-/

namespace ObservableStore.Flow

/-- A flow. -/
structure Cell (α : Type) where
  /-- The current value. -/
  value : α
  /-- The numbers of the subscriptions registered, the first one first. -/
  registered : List Nat
deriving DecidableEq, Repr

/-- What a name stands for. Flows are numbered in the order of their making, and subscriptions in
the order of their opening. -/
inductive Handle (α : Type) where
  | writer (flow : Nat)
  | view (flow : Nat)
  | subscription (number flow : Nat) (s : Subscription α)
deriving DecidableEq, Repr

namespace Handle

variable {α : Type}

/-- The flow that a handle keeps alive. -/
def keeps? : Handle α → Option Nat
  | .writer f => some f
  | .view f => some f
  | .subscription .. => none

/-- The number of a subscription. -/
def number? : Handle α → Option Nat
  | .subscription n _ _ => some n
  | _ => none

/-- Gives an emitted value to a subscription that is registered. -/
def receive (registered : List Nat) (v : α) : Handle α → Handle α
  | .subscription n f s =>
    .subscription n f (if registered.contains n then s.receive v else s)
  | h => h

end Handle

/-- Flows, and the handles on them by name. -/
structure Table (κ α : Type) where
  flows : List (Cell α)
  handles : List (κ × Handle α)
  /-- How many subscriptions were opened. -/
  opened : Nat
deriving DecidableEq, Repr

namespace Table

variable {κ α : Type}

/-- The table without flows. -/
def empty : Table κ α := ⟨[], [], 0⟩

/-- Whether a flow has a handle that keeps it alive. -/
def isAlive (t : Table κ α) (flow : Nat) : Bool :=
  t.handles.any fun h => h.2.keeps? == some flow

/-- The numbers of the subscriptions that are not dropped. -/
def live (t : Table κ α) : List Nat :=
  t.handles.filterMap fun h => h.2.number?

/-- The current value of a flow. -/
def value? (t : Table κ α) (flow : Nat) : Option α :=
  t.flows[flow]?.map Cell.value

/-- Makes a value the current one of a flow and gives it to all registered subscriptions; those that
were dropped are no longer registered then. -/
def emit (t : Table κ α) (flow : Nat) (v : α) : Table κ α :=
  let registered := (t.flows[flow]?.map Cell.registered).getD []
  let kept := registered.filter t.live.contains
  { t with
    flows := t.flows.set flow ⟨v, kept⟩
    handles := t.handles.map fun h => (h.1, h.2.receive kept v) }

section Names

variable [DecidableEq κ]

/-- What a name stands for. -/
def handle? (t : Table κ α) (name : κ) : Option (Handle α) := t.handles.lookup name

/-- Drops what a name stands for. -/
def drop (t : Table κ α) (name : κ) : Table κ α :=
  { t with handles := t.handles.filter fun h => h.1 ≠ name }

/-- Lets a name stand for a handle; what it stood for before is dropped. -/
def bind (t : Table κ α) (name : κ) (h : Handle α) : Table κ α :=
  { t.drop name with handles := (t.drop name).handles ++ [(name, h)] }

/-- Makes a flow. -/
def create (t : Table κ α) (name : κ) (initial : α) : Table κ α :=
  bind { t with flows := t.flows ++ [⟨initial, []⟩] } name (.writer t.flows.length)

/-- Opens a subscription to a flow whose current value is `current`. -/
def subscribe (t : Table κ α) (flow : Nat) (current : α) (name : κ) : Table κ α :=
  bind { t with
      flows := t.flows.modify flow fun c => { c with registered := c.registered ++ [t.opened] }
      opened := t.opened + 1 }
    name (.subscription t.opened flow (.opened current))

end Names

end Table

end ObservableStore.Flow
