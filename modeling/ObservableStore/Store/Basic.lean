import ObservableStore.Flow.Step

/-!
# Stores

A store holds a record and has a mutator for each of its fields. A mutator reads the whole state,
computes a new value of its field, and publishes the state that it read with that field replaced.
An awaiting mutator may take its time in between, and other mutators may publish meanwhile: what it
publishes is made from the state it read (`Mutation.result`), so that a field which another mutator
changed meanwhile goes back to what it was. A mutator that is never finished publishes nothing.

The store alone holds the writer of its flow; others get views of it.
-/

namespace ObservableStore

/-- Values of fields by name, in order. -/
abbrev Record (V : Type) := List (String × V)

namespace Record

variable {V : Type}

/-- Whether a record has a field. -/
def hasField (r : Record V) (field : String) : Bool := r.any fun e => e.1 == field

/-- Replaces the value of a field by its image. -/
def update (r : Record V) (field : String) (f : V → V) : Record V :=
  r.map fun e => if e.1 = field then (e.1, f e.2) else e

/-- The value of a field. -/
def get? (r : Record V) (field : String) : Option V := r.lookup field

end Record

namespace Store

/-- A mutator that has read the state and has not published yet. -/
structure Mutation (V : Type) where
  field : String
  transform : V → V
  /-- The state that it read. -/
  snapshot : Record V

/-- The state that a mutator publishes. -/
def Mutation.result {V : Type} (m : Mutation V) : Record V :=
  m.snapshot.update m.field m.transform

end Store

/-- A store, with the handles on its flow by name, and the mutators that wait. -/
structure Store (V : Type) where
  /-- The flows; the store's own flow is the first one, and its writer has no name. -/
  flows : Flow.Table (Option String) (Record V)
  /-- The mutators that wait, by the name under which they were started. -/
  waiting : List (String × Store.Mutation V)

namespace Store

variable {V : Type}

/-- A store with an initial state. -/
def ofState (initial : Record V) : Store V :=
  ⟨Flow.Table.empty.create none initial, []⟩

/-- The number of the store's own flow. -/
def ownFlow : Nat := 0

/-- The current state. -/
def state (s : Store V) : Record V := (s.flows.value? ownFlow).getD []

/-- Makes a state the current one and gives it to all subscriptions. -/
def publish (s : Store V) (r : Record V) : Store V :=
  { s with flows := s.flows.emit ownFlow r }

/-! ## Mutators -/

/-- What a mutator of a field reads when it starts. -/
def begin? (s : Store V) (field : String) (f : V → V) : Option (Mutation V) :=
  if s.state.hasField field then some ⟨field, f, s.state⟩ else none

/-- Forgets a mutator that waits. -/
def forget (s : Store V) (name : String) : Store V :=
  { s with waiting := s.waiting.filter fun m => m.1 ≠ name }

/-- Lets a mutator wait under a name; one that waited under it is forgotten. -/
def hold (s : Store V) (name : String) (m : Mutation V) : Store V :=
  { s with waiting := (s.forget name).waiting ++ [(name, m)] }

/-! ## Steps -/

/-- A step on a store. -/
inductive Step (V : Type) where
  /-- Runs the mutator of a field. -/
  | edit (field : String) (transform : V → V)
  /-- Starts the awaiting mutator of a field, under a name. -/
  | start (field : String) (transform : V → V) (name : String)
  /-- Lets a mutator that waits publish. -/
  | finish (name : String)
  /-- Drops a mutator that waits. -/
  | cancel (name : String)
  /-- Makes a view of the store's flow. -/
  | view (name : String)
  /-- A step on named handles. -/
  | flow (s : Flow.Step String (Record V))

/-- Why a step is refused. -/
inductive Refusal where
  | unknownField
  /-- No mutator waits under the name. -/
  | unknownMutator
deriving DecidableEq, Repr

/-- What a step answers. -/
inductive Answer (V : Type) where
  | done
  | waiting
  | finished
  /-- Whether there was something to drop. -/
  | cancelled (existed : Bool)
  | flow (a : Flow.Answer (Record V))
  | refused (why : Refusal)
deriving DecidableEq, Repr

/-- Takes a step: its answer, and the store afterwards. -/
def step (s : Store V) : Step V → Answer V × Store V
  | .edit field f =>
    match s.begin? field f with
    | some m => (.done, s.publish m.result)
    | none => (.refused .unknownField, s)
  | .start field f name =>
    match s.begin? field f with
    | some m => (.waiting, s.hold name m)
    | none => (.refused .unknownField, s)
  | .finish name =>
    match s.waiting.lookup name with
    | some m => (.finished, (s.forget name).publish m.result)
    | none => (.refused .unknownMutator, s)
  | .cancel name => (.cancelled (s.waiting.lookup name).isSome, s.forget name)
  | .view name => (.done, { s with flows := s.flows.bind (some name) (.view ownFlow) })
  | .flow step =>
    let (answer, flows) := s.flows.step (step.rename some)
    (.flow answer, { s with flows })

/-- Takes steps one after the other: their answers, and the store afterwards. -/
def run (s : Store V) : List (Step V) → List (Answer V) × Store V
  | [] => ([], s)
  | x :: rest =>
    let (answer, s') := s.step x
    let (answers, last) := s'.run rest
    (answer :: answers, last)

end Store

end ObservableStore
