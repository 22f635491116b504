/-!
# Subscriptions

A subscription is one reader of a flow. It holds the value that was current when it was opened until
that value is taken, and behind it every value that was emitted since. Its view is `held`: taking
takes the front of it (`take_eq`), and an emitted value goes to its end (`held_receive`).
-/

namespace ObservableStore.Flow

/-- What a subscription holds. -/
structure Subscription (α : Type) where
  /-- The value current at the opening, until it is taken. -/
  pending : Option α
  /-- The values emitted since and not taken yet, the oldest first. -/
  queue : List α
deriving DecidableEq, Repr

/-- What a subscription answers when it is asked for its next value. -/
inductive Polled (α : Type) where
  | value (v : α)
  /-- Nothing is held, and more may come. -/
  | pending
  /-- Nothing is held, and nothing will come. -/
  | ended
deriving DecidableEq, Repr

namespace Subscription

variable {α : Type}

/-- A new subscription to a flow whose current value is `current`. -/
def opened (current : α) : Subscription α := ⟨some current, []⟩

/-- The values not taken yet, in the order in which they will be taken. -/
def held (s : Subscription α) : List α := s.pending.toList ++ s.queue

/-- Adds an emitted value. -/
def receive (v : α) (s : Subscription α) : Subscription α :=
  { s with queue := s.queue ++ [v] }

/-- Takes the next value, if one is held. -/
def take (s : Subscription α) : Option α × Subscription α :=
  match s.pending, s.queue with
  | some v, _ => (some v, { s with pending := none })
  | none, v :: rest => (some v, { s with queue := rest })
  | none, [] => (none, s)

/-- Takes all values held. -/
def takeAll (s : Subscription α) : List α × Subscription α := (s.held, ⟨none, []⟩)

/-- Asks for the next value; `alive` tells whether more may come. -/
def poll (alive : Bool) (s : Subscription α) : Polled α × Subscription α :=
  match s.take with
  | (some v, s') => (.value v, s')
  | (none, s') => (if alive then .pending else .ended, s')

/-! ## What is held -/

@[simp] theorem held_opened (current : α) : (opened current).held = [current] := rfl

@[simp] theorem held_receive (v : α) (s : Subscription α) :
    (s.receive v).held = s.held ++ [v] := by
  simp [receive, held]

theorem take_eq (s : Subscription α) :
    s.take.1 = s.held.head? ∧ s.take.2.held = s.held.tail := by
  obtain ⟨pending, queue⟩ := s
  cases pending with
  | some v => exact ⟨rfl, rfl⟩
  | none => cases queue <;> exact ⟨rfl, rfl⟩

@[simp] theorem held_takeAll (s : Subscription α) : s.takeAll.2.held = [] := rfl

end Subscription

end ObservableStore.Flow
