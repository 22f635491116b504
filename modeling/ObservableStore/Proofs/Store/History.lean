import ObservableStore.Store.Basic

/-!
# `Proofs.Store.History` — the mutators of a run, by their starts and finishes

A run of a store is a list of steps with names that come and go: a name may be used again for another
mutator, and a mutator may be dropped while it waits. What matters for the state are the mutators
themselves. `History.record` reads them off the steps and their answers alone: each mutator that
starts is a `Call` with a number of its own, and an `Act` says when it started and when it finished.
A plain mutator finishes as soon as it has started.

`Chain` says which of the finished calls the state is made of, as a property of the acts: the last
call to finish, before it the last call that had finished when this one started, and so on.
-/

namespace ObservableStore.Store

variable {V : Type}

/-- A mutator of a run: the mutators that start are numbered from 0. -/
structure Call (V : Type) where
  number : Nat
  field : String
  transform : V → V

/-- What a call does to a state: it replaces its field by the image of that field. -/
def Call.apply (c : Call V) (r : Record V) : Record V := r.update c.field c.transform

/-- The state after calls that see each other's results. -/
def applyAll (initial : Record V) (cs : List (Call V)) : Record V :=
  cs.foldl (fun r c => c.apply r) initial

/-- A start or a finish. -/
inductive Act (V : Type) where
  /-- The call has read the state. -/
  | started (c : Call V)
  /-- The call has published. -/
  | finished (c : Call V)

/-- The call that starts. -/
def Act.started? : Act V → Option (Call V)
  | .started c => some c
  | .finished _ => none

/-- The call that finishes. -/
def Act.finished? : Act V → Option (Call V)
  | .started _ => none
  | .finished c => some c

/-- The calls that started, in order. -/
def startedCalls (as : List (Act V)) : List (Call V) := as.filterMap Act.started?

/-- The calls that finished, in the order of their finishes. -/
def finishedCalls (as : List (Act V)) : List (Call V) := as.filterMap Act.finished?

/-! ## Reading a run -/

/-- What is known of a run from its steps and answers. -/
structure History (V : Type) where
  acts : List (Act V)
  /-- The calls that wait, by the names under which they were started. -/
  waiting : List (String × Call V)
  /-- How many calls have started. -/
  count : Nat

namespace History

/-- The history of a run without steps. -/
def empty : History V := ⟨[], [], 0⟩

/-- The call that starts next. -/
def next (h : History V) (field : String) (f : V → V) : Call V := ⟨h.count, field, f⟩

/-- Forgets a call that waits. -/
def forget (h : History V) (name : String) : History V :=
  { h with waiting := h.waiting.filter fun e => e.1 ≠ name }

/-- Adds a step with its answer. What was refused did not happen. -/
def record (h : History V) : Step V → Answer V → History V
  | .edit field f, .done =>
    { h with
      acts := h.acts ++ [.started (h.next field f), .finished (h.next field f)]
      count := h.count + 1 }
  | .start field f name, .waiting =>
    { acts := h.acts ++ [.started (h.next field f)]
      waiting := (h.forget name).waiting ++ [(name, h.next field f)]
      count := h.count + 1 }
  | .finish name, .finished =>
    match h.waiting.lookup name with
    | some c => { h.forget name with acts := h.acts ++ [.finished c] }
    | none => h
  | .cancel name, _ => h.forget name
  | _, _ => h

end History

/-- The history of a run that begins in a store with a history. -/
def historyFrom (s : Store V) (h : History V) : List (Step V) → History V
  | [] => h
  | x :: rest => historyFrom (s.step x).2 (h.record x (s.step x).1) rest

/-- The acts of a run of a new store. -/
def acts (initial : Record V) (steps : List (Step V)) : List (Act V) :=
  (historyFrom (ofState initial) History.empty steps).acts

/-! ## The chain of surviving calls -/

/-- The calls that a state is made of, the first one first: the last call to finish, and before it
    the chain of the acts before its start. -/
inductive Chain : List (Act V) → List (Call V) → Prop where
  /-- Nothing has finished. -/
  | none {as : List (Act V)} (h : finishedCalls as = []) : Chain as []
  /-- Nothing has finished since `c`, and `c` has read what the acts before its start left. -/
  | last {before between after : List (Act V)} {c : Call V} {cs : List (Call V)}
      (hc : Chain before cs) (h : finishedCalls after = []) :
      Chain (before ++ .started c :: between ++ .finished c :: after) (cs ++ [c])

end ObservableStore.Store
