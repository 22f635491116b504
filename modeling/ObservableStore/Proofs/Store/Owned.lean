import ObservableStore.Proofs.Flow.Effects
import ObservableStore.Store.Basic

/-!
# `Proofs.Store.Owned` — the store alone writes its state

The steps on named handles share the table of flows with the store, but not its writer: that one has
no name. So whatever they do, they never emit on the store's own flow (`state_flow`), and the state
changes by `publish` only. `Owned` is the invariant behind it, kept by every step of a store
(`Owned.step`).
-/

namespace ObservableStore

open ObservableStore.Flow

variable {V : Type}

/-- The names that a step on named handles may touch: all but the store's own. -/
def Store.Named (k : Option String) : Prop := k ≠ none

theorem Flow.Step.names_rename_some {α : Type} (x : Flow.Step String α) :
    ∀ k ∈ (x.rename some).names, Store.Named k := by
  intro k hk
  cases x <;> simp only [Flow.Step.rename, Flow.Step.names, List.mem_cons, List.not_mem_nil,
    or_false] at hk <;> grind [Store.Named]

/-- A store whose own flow has exactly one writer, the one without a name. -/
structure Store.Owned (s : Store V) : Prop where
  wellFormed : WellFormed s.flows
  own : s.flows.handle? none = some (.writer Store.ownFlow)
  alone : ∀ {k}, s.flows.handle? k = some (.writer Store.ownFlow) → k = none

namespace Store

variable {s : Store V}

theorem Owned.flow_lt (hs : Owned s) : ownFlow < s.flows.flows.length :=
  hs.wellFormed.flow_lt hs.own

theorem owned_ofState (initial : Record V) : Owned (ofState initial) where
  wellFormed := WellFormed.empty.change (Table.Change.made (P := fun _ => True) trivial initial)
  own := by simp [ofState, ownFlow, Table.empty]
  alone := by
    intro k hk
    simp only [ofState, Table.handle?_create] at hk
    split at hk
    · assumption
    · simp [Table.empty, Table.handle?] at hk

/-! ## The state -/

@[simp] theorem state_ofState (initial : Record V) : (ofState initial).state = initial := by
  simp [state, ofState, ownFlow, Table.empty]

/-- What is published is the state. -/
theorem state_publish (hs : Owned s) (r : Record V) : (s.publish r).state = r := by
  simp [state, publish, Table.value?_emit _ _ _ _ hs.flow_lt]

/-! ## Steps on named handles -/

/-- A step on named handles is a change that does not touch the store's writer. -/
theorem flow_change (s : Store V) (x : Flow.Step String (Record V)) :
    Table.Change Named s.flows
      (s.flows.event (x.rename some) (s.flows.step (x.rename some)).1)
      (s.flows.step (x.rename some)).2 :=
  Table.step_change s.flows (x.rename some) x.names_rename_some

/-- A change that does not touch the store's writer emits nothing on the store's flow. -/
theorem Owned.emittedOn_eq_nil (hs : Owned s) {e : Event (Record V)}
    {t' : Table (Option String) (Record V)} (c : Table.Change Named s.flows e t') :
    e.publishedOn ownFlow = [] := by
  have hlt : ownFlow < s.flows.flows.length := hs.flow_lt
  rcases c.flows_length hs.wellFormed with ⟨-, hsame⟩ | ⟨v, -, rfl⟩
  · cases e with
    | emitted g v =>
        by_cases hg : g = ownFlow
        · subst hg
          obtain ⟨w, hw, hwriter⟩ := c.emitted_writer
          exact absurd (hs.alone hwriter) hw
        · simp [Event.publishedOn, hg]
    | made g v =>
        rw [(hsame ownFlow).1]
        rfl
    | silent => rfl
    | opened n g => rfl
    | taken n vs => rfl
  · simp only [Event.publishedOn, ite_eq_right_iff]
    intro he
    omega

/-- **Named handles do not write.** A step on named handles leaves the state as it is. -/
theorem state_flow (hs : Owned s) (x : Flow.Step String (Record V)) :
    (s.step (.flow x)).2.state = s.state := by
  have c := s.flow_change x
  show ((s.flows.step (x.rename some)).2.value? ownFlow).getD [] = _
  rw [c.value? hs.wellFormed, hs.emittedOn_eq_nil c]
  rfl

/-- A change that does not touch the store's writer keeps the store its owner. -/
theorem Owned.change (hs : Owned s) {e : Event (Record V)}
    {t' : Table (Option String) (Record V)} (c : Table.Change Named s.flows e t') :
    Owned { s with flows := t' } where
  wellFormed := hs.wellFormed.change c
  own := c.keeps_writer (fun h => h rfl) hs.own
  alone := by
    intro k hk
    rcases c.writer_cases hk with hold | hnew
    · exact hs.alone hold
    · exact absurd (hnew ▸ hs.flow_lt) (Nat.lt_irrefl _)

/-! ## Every step -/

theorem Owned.publish (hs : Owned s) (r : Record V) : Owned (s.publish r) where
  wellFormed := hs.wellFormed.emit r hs.flow_lt
  own := by simp [Store.publish, hs.own, Handle.receive]
  alone := by
    intro k hk
    obtain ⟨h, hh, hr⟩ := Table.handle?_of_emit hk
    exact hs.alone (Handle.eq_writer_of_receive hr ▸ hh)

/-- Mutators that wait are not part of the flows. -/
theorem Owned.waiting (hs : Owned s) (waiting : List (String × Mutation V)) :
    Owned { s with waiting } :=
  ⟨hs.wellFormed, hs.own, hs.alone⟩

/-- **Every step keeps the store its owner.** -/
theorem Owned.step (hs : Owned s) (x : Step V) : Owned (s.step x).2 := by
  cases x with
  | edit field f =>
      simp only [Store.step]
      split
      · exact hs.publish _
      · exact hs
  | start field f name =>
      simp only [Store.step]
      split
      · exact hs.waiting _
      · exact hs
  | finish name =>
      simp only [Store.step]
      split
      · exact (hs.waiting _).publish _
      · exact hs
  | cancel name => exact hs.waiting _
  | view name =>
      have hown : s.flows.flowOf? none = some ownFlow := by
        simp [Table.flowOf?, hs.own, Handle.keeps?]
      exact hs.change (Table.Change.viewed (fun h => by cases h) hown)
  | flow x => exact hs.change (s.flow_change x)

end Store

end ObservableStore
