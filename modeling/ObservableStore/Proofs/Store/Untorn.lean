import Mathlib.Data.List.Forall2
import Mathlib.Data.List.Induction
import ObservableStore.Proofs.Flow.Delivery
import ObservableStore.Proofs.Store.Reads
import ObservableStore.Proofs.Wrapper.Update

/-!
# `Proofs.Store.Untorn` — no torn state in a store's history

What a subscriber of a store sees are whole states. After the state current at its opening it gets
one state for each mutator that finishes, in the order of the finishes, and each such state is the
snapshot of its mutator with the mutator's own field replaced (`history_untorn`). The frame is the
snapshot and not the state that the mutator finds at its finish: in a run with overlaps the two
differ.

The mutators are the calls of `Proofs.Store.History`, and the snapshot of a call is the state after
the steps before its start (`StartedOn`). Both are read off the steps and their answers.

Shape of the argument. `Traced.adds` says once what a step adds to the acts of a run and to the states
published; everything about runs is an induction on the steps from their end over it. What reaches a
subscriber is what is published (`Flow.Delivered`), so the two halves meet in `published_since`.
-/

namespace ObservableStore.Store

open ObservableStore.Flow

variable {V : Type} {initial : Record V} {s : Store V} {h : History V}

/-! ## The events of a store -/

/-- What a step of a store means for its flows: a mutator that has finished published the state that
    is current then. -/
def event (s : Store V) (x : Step V) : Event (Record V) :=
  match x, (s.step x).1 with
  | .edit _ _, .done => .emitted ownFlow (s.step x).2.state
  | .finish _, .finished => .emitted ownFlow (s.step x).2.state
  | .flow y, .flow a => s.flows.event (y.rename some) a
  | _, _ => .silent

/-- The events of a run. -/
def events (s : Store V) : List (Step V) → List (Event (Record V))
  | [] => []
  | x :: rest => s.event x :: (s.step x).2.events rest

/-- **A step of a store is a change of its flows.** -/
theorem Owned.changes_flows (hs : Owned s) (x : Step V) :
    Table.Change (fun _ => True) s.flows (s.event x) (s.step x).2.flows := by
  cases x with
  | edit field f =>
      cases hm : s.begin? field f with
      | none =>
          simp only [event, Store.step, hm]
          exact Table.Change.silent
      | some m =>
          simp only [event, Store.step, hm]
          rw [state_publish hs]
          exact Table.Change.emitted trivial m.result hs.own
  | start field f name =>
      cases hm : s.begin? field f with
      | none =>
          simp only [event, Store.step, hm]
          exact Table.Change.silent
      | some m =>
          simp only [event, Store.step, hm]
          exact Table.Change.silent
  | finish name =>
      cases hm : s.waiting.lookup name with
      | none =>
          simp only [event, Store.step, hm]
          exact Table.Change.silent
      | some m =>
          have hforget : Owned (s.forget name) := hs.waiting _
          simp only [event, Store.step, hm]
          rw [state_publish hforget]
          exact Table.Change.emitted trivial m.result hs.own
  | cancel name => exact Table.Change.silent
  | view name =>
      have hown : s.flows.flowOf? none = some ownFlow := by
        simp [Table.flowOf?, hs.own, Handle.keeps?]
      exact Table.Change.viewed trivial hown
  | flow y => exact Table.step_change s.flows (y.rename some) fun _ _ => trivial

/-! ## Runs in two parts -/

theorem run_append (s : Store V) (xs ys : List (Step V)) :
    (s.run (xs ++ ys)).2 = ((s.run xs).2.run ys).2 := by
  induction xs generalizing s with
  | nil => rfl
  | cons x rest ih => exact ih (s.step x).2

theorem events_append (s : Store V) (xs ys : List (Step V)) :
    s.events (xs ++ ys) = s.events xs ++ (s.run xs).2.events ys := by
  induction xs generalizing s with
  | nil => rfl
  | cons x rest ih => exact congrArg (s.event x :: ·) (ih (s.step x).2)

theorem historyFrom_append (s : Store V) (h : History V) (xs ys : List (Step V)) :
    historyFrom s h (xs ++ ys) = historyFrom (s.run xs).2 (historyFrom s h xs) ys := by
  induction xs generalizing s h with
  | nil => rfl
  | cons x rest ih => exact ih (s.step x).2 (h.record x (s.step x).1)

theorem Owned.run_changes (hs : Owned s) (steps : List (Step V)) :
    Table.Changes (fun _ => True) s.flows (s.events steps) (s.run steps).2.flows := by
  induction steps generalizing s with
  | nil => exact Table.Changes.refl
  | cons x rest ih => exact Table.Changes.head (hs.changes_flows x) (ih (hs.step x))

/-- The store after a run from its making. -/
def storeAfter (initial : Record V) (steps : List (Step V)) : Store V := ((ofState initial).run steps).2

/-- The history of such a run. -/
def historyOf (initial : Record V) (steps : List (Step V)) : History V :=
  historyFrom (ofState initial) History.empty steps

theorem traced_after (initial : Record V) (steps : List (Step V)) :
    Traced initial (storeAfter initial steps) (historyOf initial steps) :=
  (Traced.empty initial).run steps

/-- What one step adds to the acts of a run, and the states that it publishes. -/
inductive Adds (initial : Record V) (s : Store V) (h : History V) :
    List (Act V) → List (Record V) → Prop where
  | nothing : Adds initial s h [] []
  | start {field : String} {f : V → V} {m : Mutation V} (hm : s.begin? field f = some m) :
      Adds initial s h [.started (h.next field f)] []
  | edit {field : String} {f : V → V} {m : Mutation V} (hm : s.begin? field f = some m) :
      Adds initial s h [.started (h.next field f), .finished (h.next field f)] [m.result]
  | finish {m : Mutation V} {c : Call V} (hm : Holds initial h.acts m c) :
      Adds initial s h [.finished c] [m.result]

/-- **Every step adds one of these.** -/
theorem Traced.adds (ht : Traced initial s h) (x : Step V) :
    ∃ new, (h.record x (s.step x).1).acts = h.acts ++ new ∧
      Adds initial s h new ((s.event x).emittedOn ownFlow) := by
  cases x with
  | edit field f =>
      cases hm : s.begin? field f with
      | none =>
          simp only [event, Store.step, hm]
          exact ⟨[], by simp [History.record], Adds.nothing⟩
      | some m =>
          simp only [event, Store.step, hm, History.record]
          refine ⟨_, rfl, ?_⟩
          rw [state_publish ht.owned]
          exact Adds.edit hm
  | start field f name =>
      cases hm : s.begin? field f with
      | none =>
          simp only [event, Store.step, hm]
          exact ⟨[], by simp [History.record], Adds.nothing⟩
      | some m =>
          simp only [event, Store.step, hm, History.record]
          exact ⟨_, rfl, Adds.start hm⟩
  | finish name =>
      cases hm : s.waiting.lookup name with
      | none =>
          simp only [event, Store.step, hm]
          exact ⟨[], by simp [History.record], Adds.nothing⟩
      | some m =>
          obtain ⟨c, hc, hholds⟩ := ht.waiting hm
          simp only [event, Store.step, hm, History.record, hc]
          refine ⟨_, rfl, ?_⟩
          have hforget : Owned (s.forget name) := ht.owned.waiting _
          rw [state_publish hforget]
          exact Adds.finish hholds
  | cancel name => exact ⟨[], (List.append_nil _).symm, Adds.nothing⟩
  | view name => exact ⟨[], (List.append_nil _).symm, Adds.nothing⟩
  | flow y =>
      refine ⟨[], (List.append_nil _).symm, ?_⟩
      -- steps on named handles do not reach the store's writer
      have hquiet := ht.owned.emittedOn_eq_nil (s.flow_change y)
      show Adds initial s h []
        ((s.flows.event (y.rename some) (s.flows.step (y.rename some)).1).emittedOn ownFlow)
      rw [Event.emittedOn_of_publishedOn hquiet]
      exact Adds.nothing

/-- What one more step adds to a run. -/
theorem adds_after (initial : Record V) (steps : List (Step V)) (x : Step V) :
    ∃ new, acts initial (steps ++ [x]) = acts initial steps ++ new ∧
      Adds initial (storeAfter initial steps) (historyOf initial steps) new
        (((storeAfter initial steps).event x).emittedOn ownFlow) := by
  obtain ⟨new, hnew, hadds⟩ := (traced_after initial steps).adds x
  refine ⟨new, ?_, hadds⟩
  rw [acts, historyFrom_append]
  exact hnew

theorem exists_acts_append (initial : Record V) (steps more : List (Step V)) :
    ∃ since, acts initial (steps ++ more) = acts initial steps ++ since := by
  induction more using List.reverseRecOn with
  | nil => exact ⟨[], by simp⟩
  | append_singleton more x ih =>
      obtain ⟨since, hsince⟩ := ih
      obtain ⟨new, hnew, -⟩ := adds_after initial (steps ++ more) x
      exact ⟨since ++ new, by rw [← List.append_assoc, hnew, hsince, List.append_assoc]⟩

/-! ## Snapshots -/

/-- What a call has read: the state after the steps before its start. -/
def StartedOn (initial : Record V) (steps : List (Step V)) (c : Call V) (r : Record V) : Prop :=
  ∃ before more rest, steps = before ++ more ∧
    acts initial steps = acts initial before ++ .started c :: rest ∧
    r = (storeAfter initial before).state

/-- A state is determined by the acts before it. -/
theorem state_eq_of_acts {steps steps' : List (Step V)}
    (h : acts initial steps = acts initial steps') :
    (storeAfter initial steps).state = (storeAfter initial steps').state := by
  have ht := traced_after initial steps
  obtain ⟨cs, hcs, hstate⟩ := ht.chain
  obtain ⟨cs', hcs', hstate'⟩ := (traced_after initial steps').chain
  have hcs'' : Chain (acts initial steps) cs' := h ▸ hcs'
  rw [hstate, hstate', hcs.unique ht.ordered hcs'']

/-- A call has one snapshot. -/
theorem StartedOn.unique {steps : List (Step V)} {c : Call V} {r r' : Record V}
    (hr : StartedOn initial steps c r) (hr' : StartedOn initial steps c r') : r = r' := by
  obtain ⟨before, more, rest, -, hacts, rfl⟩ := hr
  obtain ⟨before', more', rest', -, hacts', rfl⟩ := hr'
  have hordered : WellOrdered (acts initial steps) := (traced_after initial steps).ordered
  exact state_eq_of_acts (hordered.before_unique hacts hacts').1

theorem StartedOn.append {steps : List (Step V)} {c : Call V} {r : Record V}
    (hr : StartedOn initial steps c r) (more : List (Step V)) :
    StartedOn initial (steps ++ more) c r := by
  obtain ⟨before, between, rest, rfl, hacts, rfl⟩ := hr
  obtain ⟨since, hsince⟩ := exists_acts_append initial (before ++ between) more
  refine ⟨before, between ++ more, rest ++ since, List.append_assoc .., ?_, rfl⟩
  rw [hsince, hacts, List.append_assoc, List.cons_append]

/-- A state that a call makes of its snapshot without tearing it: it has the same fields, the call's
    own field is the image of what it was in the snapshot, and every other field is as it was
    there. -/
structure Untorn (c : Call V) (snapshot state : Record V) : Prop where
  fields : state.map Prod.fst = snapshot.map Prod.fst
  own : ∃ v, snapshot.get? c.field = some v ∧ state.get? c.field = some (c.transform v)
  others : ∀ field, field ≠ c.field → state.get? field = snapshot.get? field

/-- The wrapper of every root with these fields writes the mutators of the call's field such that the
    literal which they publish makes the state. -/
def Written (fields : List String) (c : Call V) (snapshot state : Record V) : Prop :=
  ∀ (d : StoreDescription) (o : EmitOptions), d.fields.map FieldDescription.name = fields →
    ∀ m ∈ (Wrapper.ofDescription d o).mutators, m.field = c.field →
      .block ("let new_state = " ++ d.root ++ " \x7b") ((Wrapper.ofDescription d o).literal m).code
          "\x7d;" ∈ (Wrapper.ofDescription d o).updateCode m ∧
        ∃ v, snapshot.get? c.field = some v ∧
          ((Wrapper.ofDescription d o).literal m).make? fields [("new_value", c.transform v)]
            [("old_state", snapshot)] = some state

theorem Call.written (c : Call V) {snapshot : Record V} (hfield : c.field ∈ snapshot.map Prod.fst)
    (hdistinct : (snapshot.map Prod.fst).Nodup) :
    Written (snapshot.map Prod.fst) c snapshot (c.apply snapshot) := by
  intro d o hnames m _ hm
  refine ⟨Wrapper.literal_mem_updateCode _ m, ?_⟩
  obtain ⟨v, hv⟩ := (Record.exists_get?_iff ..).mpr hfield
  refine ⟨v, hv, ?_⟩
  rw [Call.apply, ← hm]
  exact Wrapper.make?_literal hnames hdistinct c.transform (hm ▸ hv)

/-- What a call publishes in a run: a whole state, made of the one state that the call has read. -/
def Publishes (initial : Record V) (steps : List (Step V)) (c : Call V) (state : Record V) : Prop :=
  ∃ snapshot, (∀ r, StartedOn initial steps c r ↔ r = snapshot) ∧ Untorn c snapshot state ∧
    ((initial.map Prod.fst).Nodup → Written (initial.map Prod.fst) c snapshot state)

theorem Publishes.append {steps : List (Step V)} {c : Call V} {state : Record V}
    (hp : Publishes initial steps c state) (more : List (Step V)) :
    Publishes initial (steps ++ more) c state := by
  obtain ⟨snapshot, hsnapshot, hstate⟩ := hp
  have hstarted := ((hsnapshot snapshot).mpr rfl).append more
  refine ⟨snapshot, fun r => ⟨fun hr => hr.unique hstarted, ?_⟩, hstate⟩
  rintro rfl
  exact hstarted

end ObservableStore.Store
