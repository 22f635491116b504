import ObservableStore.Flow.Table

/-!
# Steps on flows

A step names the handles it works with. A step on a name that stands for nothing, or for a handle
that does not take part in steps of its kind, is refused and changes nothing.
-/

namespace ObservableStore.Flow

/-- A step on the flows of a table. -/
inductive Step (κ α : Type) where
  /-- Makes a flow with a writer. -/
  | create (writer : κ) (initial : α)
  | emit (writer : κ) (v : α)
  /-- Makes a view from a writer. -/
  | view (writer new : κ)
  /-- Makes a view from a view. -/
  | clone (view new : κ)
  /-- Opens a subscription through a writer or a view. -/
  | subscribe (source new : κ)
  | value (source : κ)
  /-- Counts the subscriptions registered. -/
  | count (writer : κ)
  | drop (name : κ)
  /-- Asks a subscription for its next value. -/
  | next (subscription : κ)
  /-- Takes the next value of a subscription, if it holds one. -/
  | tryNext (subscription : κ)
  /-- Takes all that a subscription holds. -/
  | drain (subscription : κ)
  /-- Shows a writer or a view. -/
  | describe (source : κ)
deriving DecidableEq, Repr

/-- The step with other names. -/
def Step.rename {κ ι α : Type} (f : κ → ι) : Step κ α → Step ι α
  | .create writer initial => .create (f writer) initial
  | .emit writer v => .emit (f writer) v
  | .view writer new => .view (f writer) (f new)
  | .clone source new => .clone (f source) (f new)
  | .subscribe source new => .subscribe (f source) (f new)
  | .value source => .value (f source)
  | .count writer => .count (f writer)
  | .drop name => .drop (f name)
  | .next subscription => .next (f subscription)
  | .tryNext subscription => .tryNext (f subscription)
  | .drain subscription => .drain (f subscription)
  | .describe source => .describe (f source)

/-- Why a step is refused. -/
inductive Refusal where
  /-- A name stands for nothing. -/
  | unknownName
  /-- A name stands for a handle of another kind. -/
  | wrongKind
deriving DecidableEq, Repr

/-- What a step answers. -/
inductive Answer (α : Type) where
  | done
  | value (v : α)
  | count (n : Nat)
  /-- Whether there was something to drop. -/
  | dropped (existed : Bool)
  | polled (p : Polled α)
  | taken (v : Option α)
  /-- The values taken, and what asking for one more answers. -/
  | drained (values : List α) (after : Polled α)
  /-- The current value, seen through a writer or a view. -/
  | described (isWriter : Bool) (v : α)
  | refused (why : Refusal)
deriving DecidableEq, Repr

namespace Table

variable {κ α : Type} [DecidableEq κ]

/-- Does something with a handle and gives the answer and the table afterwards. What is not
possible with a handle of its kind is refused. -/
def withHandle (t : Table κ α) (name : κ)
    (act : Handle α → Option (Answer α × Table κ α)) : Answer α × Table κ α :=
  match t.handle? name with
  | none => (.refused .unknownName, t)
  | some h => (act h).getD (.refused .wrongKind, t)

/-- Does something with the subscription that a name stands for, which may change. -/
def withSubscription (t : Table κ α) (name : κ)
    (act : (alive : Bool) → Subscription α → Answer α × Subscription α) : Answer α × Table κ α :=
  t.withHandle name fun
    | .subscription n f s =>
      let (answer, s') := act (t.isAlive f) s
      some (answer, t.bind name (.subscription n f s'))
    | _ => none

/-- Does something with the flow, and its current value, of a writer or a view. -/
def withSource (t : Table κ α) (name : κ)
    (act : (isWriter : Bool) → (flow : Nat) → (current : α) → Option (Answer α × Table κ α)) :
    Answer α × Table κ α :=
  t.withHandle name fun
    | .writer f => (t.value? f).bind (act true f)
    | .view f => (t.value? f).bind (act false f)
    | .subscription .. => none

/-- Takes a step: its answer, and the table afterwards. -/
def step (t : Table κ α) : Step κ α → Answer α × Table κ α
  | .create writer initial => (.done, t.create writer initial)
  | .emit writer v => t.withHandle writer fun
    | .writer f => some (.done, t.emit f v)
    | _ => none
  | .view writer new => t.withHandle writer fun
    | .writer f => some (.done, t.bind new (.view f))
    | _ => none
  | .clone view new => t.withHandle view fun
    | .view f => some (.done, t.bind new (.view f))
    | _ => none
  | .subscribe source new => t.withSource source fun _ f current =>
    some (.done, t.subscribe f current new)
  | .value source => t.withSource source fun _ _ current => some (.value current, t)
  | .count writer => t.withHandle writer fun
    | .writer f => t.flows[f]?.map fun c => (.count c.registered.length, t)
    | _ => none
  | .drop name => (.dropped (t.handle? name).isSome, t.drop name)
  | .next subscription => t.withSubscription subscription fun alive s =>
    let (p, s') := s.poll alive
    (.polled p, s')
  | .tryNext subscription => t.withSubscription subscription fun _ s =>
    let (v, s') := s.take
    (.taken v, s')
  | .drain subscription => t.withSubscription subscription fun alive s =>
    let (vs, s') := s.takeAll
    (.drained vs (s'.poll alive).1, s')
  | .describe source => t.withSource source fun isWriter _ current =>
    some (.described isWriter current, t)

/-- Takes steps one after the other: their answers, and the table afterwards. -/
def run (t : Table κ α) : List (Step κ α) → List (Answer α) × Table κ α
  | [] => ([], t)
  | s :: rest =>
    let (answer, t') := t.step s
    let (answers, last) := t'.run rest
    (answer :: answers, last)

end Table

end ObservableStore.Flow
