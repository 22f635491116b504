import ObservableStore.Proofs.Flow.Table
import ObservableStore.Proofs.Store.Chain
import ObservableStore.Proofs.Store.Owned
import ObservableStore.Store.Counter

/-!
# `Proofs.Store.Reads` — a state is made of the chain of surviving calls

A mutator publishes the state that it read with its field replaced. So a state that it publishes is
made of the calls that its snapshot was made of and of the mutator itself, and every other change is
gone. `Traced` is this fact for the state and for each mutator that waits, kept by every step
(`Traced.step`); over a run it says that the state is the initial one, changed by the calls on the
chain (`state_eq_chain`). Of two mutators that read the same state at most one is on it. Both are gone
when a mutator that had started before them publishes after them (`neither_survives`).
-/

namespace ObservableStore.Store

open ObservableStore.Flow

variable {V : Type} {initial : Record V} {s : Store V} {h : History V}

/-! ## A mutator that waits and its call -/

/-- A mutator that waits has read what the chain before the start of its call left. -/
structure Holds (initial : Record V) (as : List (Act V)) (m : Mutation V) (c : Call V) : Prop where
  field : c.field = m.field
  transform : c.transform = m.transform
  snapshot : ∃ before after cs, as = before ++ .started c :: after ∧ Chain before cs ∧
    m.snapshot = applyAll initial cs

theorem Holds.append {as : List (Act V)} {m : Mutation V} {c : Call V}
    (hm : Holds initial as m c) (bs : List (Act V)) : Holds initial (as ++ bs) m c where
  field := hm.field
  transform := hm.transform
  snapshot := by
    obtain ⟨before, after, cs, rfl, hcs, hsnap⟩ := hm.snapshot
    exact ⟨before, after ++ bs, cs, by rw [List.append_assoc, List.cons_append], hcs, hsnap⟩

theorem Holds.started {as : List (Act V)} {m : Mutation V} {c : Call V}
    (hm : Holds initial as m c) : Act.started c ∈ as := by
  obtain ⟨before, after, cs, rfl, -, -⟩ := hm.snapshot
  exact List.mem_append_right _ List.mem_cons_self

theorem applyAll_concat (initial : Record V) (cs : List (Call V)) (c : Call V) :
    applyAll initial (cs ++ [c]) = c.apply (applyAll initial cs) := by
  simp [applyAll, List.foldl_append]

/-- What a mutator publishes is made of the chain that ends in its call. -/
theorem Holds.result {as : List (Act V)} {m : Mutation V} {c : Call V}
    (hm : Holds initial as m c) :
    ∃ cs, Chain (as ++ [.finished c]) cs ∧ m.result = applyAll initial cs := by
  obtain ⟨before, after, cs, rfl, hcs, hsnap⟩ := hm.snapshot
  refine ⟨cs ++ [c], hcs.finish c after, ?_⟩
  rw [applyAll_concat, ← hsnap, Mutation.result, Call.apply, hm.field, hm.transform]

/-! ## The invariant -/

/-- What the history of a run says about the store at its end. -/
structure Traced (initial : Record V) (s : Store V) (h : History V) : Prop where
  owned : Owned s
  numbers : (startedCalls h.acts).map Call.number = List.range h.count
  ordered : WellOrdered h.acts
  /-- The state is the initial one, changed by the calls on the chain. -/
  chain : ∃ cs, Chain h.acts cs ∧ s.state = applyAll initial cs
  waiting : ∀ {name m}, s.waiting.lookup name = some m →
    ∃ c, h.waiting.lookup name = some c ∧ Holds initial h.acts m c

theorem Traced.empty (initial : Record V) : Traced initial (ofState initial) History.empty where
  owned := owned_ofState initial
  numbers := rfl
  ordered := WellOrdered.nil
  chain := ⟨[], Chain.none rfl, state_ofState initial⟩
  waiting hm := by cases hm

/-- The next call has not started yet. -/
theorem Traced.next_fresh (ht : Traced initial s h) (field : String) (f : V → V) :
    Act.started (h.next field f) ∉ h.acts := by
  intro hc
  have hn : (h.next field f).number ∈ List.range h.count := by
    rw [← ht.numbers]
    exact List.mem_map_of_mem (mem_startedCalls.mpr hc)
  exact absurd (List.mem_range.mp hn) (Nat.lt_irrefl _)

/-- The mutator that reads the state now. -/
theorem Traced.begin? (ht : Traced initial s h) {field : String} {f : V → V} {m : Mutation V}
    (hm : s.begin? field f = some m) :
    Holds initial (h.acts ++ [.started (h.next field f)]) m (h.next field f) := by
  obtain ⟨cs, hcs, hstate⟩ := ht.chain
  simp only [Store.begin?, Option.ite_none_right_eq_some, Option.some.injEq] at hm
  obtain ⟨-, rfl⟩ := hm
  exact ⟨rfl, rfl, h.acts, [], cs, rfl, hcs, hstate⟩

/-! ## What the steps keep -/

/-- A store changes its handles only. -/
theorem Traced.same_state {s' : Store V} (ht : Traced initial s h) (ho : Owned s')
    (hstate : s'.state = s.state) (hwaiting : s'.waiting = s.waiting) : Traced initial s' h where
  owned := ho
  numbers := ht.numbers
  ordered := ht.ordered
  chain := by rw [hstate]; exact ht.chain
  waiting := by rw [hwaiting]; exact ht.waiting

/-- A mutator that is forgotten is forgotten in the history. -/
theorem Traced.forget (ht : Traced initial s h) (name : String) :
    Traced initial (s.forget name) (h.forget name) where
  owned := ht.owned.waiting _
  numbers := ht.numbers
  ordered := ht.ordered
  chain := ht.chain
  waiting := by
    intro k m hm
    simp only [Store.forget, lookup_filter_ne, Option.ite_none_left_eq_some] at hm
    obtain ⟨c, hc, hholds⟩ := ht.waiting hm.2
    refine ⟨c, ?_, hholds⟩
    rw [History.forget, lookup_filter_ne, if_neg hm.1, hc]

/-- A call starts. -/
theorem Traced.start (ht : Traced initial s h) (field : String) (f : V → V) :
    Traced initial s
      { h with acts := h.acts ++ [.started (h.next field f)], count := h.count + 1 } where
  owned := ht.owned
  numbers := by
    simp [ht.numbers, List.range_succ, History.next]
  ordered := ht.ordered.started (ht.next_fresh field f)
  chain := by
    obtain ⟨cs, hcs, hstate⟩ := ht.chain
    exact ⟨cs, hcs.append_quiet rfl, hstate⟩
  waiting := by
    intro name m hm
    obtain ⟨c, hc, hholds⟩ := ht.waiting hm
    exact ⟨c, hc, hholds.append _⟩

/-- A mutator waits under a name. -/
theorem Traced.hold (ht : Traced initial s h) {m : Mutation V} {c : Call V} (name : String)
    (hm : Holds initial h.acts m c) :
    Traced initial (s.hold name m)
      { h with waiting := (h.forget name).waiting ++ [(name, c)] } where
  owned := ht.owned.waiting _
  numbers := ht.numbers
  ordered := ht.ordered
  chain := ht.chain
  waiting := by
    intro k m' hm'
    change ((s.waiting.filter fun e => e.1 ≠ name) ++ [(name, m)]).lookup k = some m' at hm'
    rw [lookup_rebind] at hm'
    -- the name stands for the new mutator in both, and other names for what they stood for
    by_cases hk : k = name
    · rw [if_pos hk, Option.some.injEq] at hm'
      subst hm'
      exact ⟨c, (lookup_rebind h.waiting name k c).trans (if_pos hk), hm⟩
    · rw [if_neg hk] at hm'
      obtain ⟨c', hc', hholds⟩ := ht.waiting hm'
      exact ⟨c', ((lookup_rebind h.waiting name k c).trans (if_neg hk)).trans hc', hholds⟩

/-- A mutator publishes. -/
theorem Traced.finish (ht : Traced initial s h) {m : Mutation V} {c : Call V}
    (hm : Holds initial h.acts m c) :
    Traced initial (s.publish m.result) { h with acts := h.acts ++ [.finished c] } where
  owned := ht.owned.publish _
  numbers := by simpa using ht.numbers
  ordered := ht.ordered.finished hm.started
  chain := by
    obtain ⟨cs, hcs, hresult⟩ := hm.result
    exact ⟨cs, hcs, by rw [state_publish ht.owned, hresult]⟩
  waiting := by
    intro name m' hm'
    obtain ⟨c', hc', hholds⟩ := ht.waiting hm'
    exact ⟨c', hc', hholds.append _⟩

/-- **Every step keeps the trace.** -/
theorem Traced.step (ht : Traced initial s h) (x : Step V) :
    Traced initial (s.step x).2 (h.record x (s.step x).1) := by
  cases x with
  | edit field f =>
      cases hm : s.begin? field f with
      | none =>
          simp only [Store.step, hm]
          exact ht
      | some m =>
          -- a plain mutator finishes as soon as it has started
          simp only [Store.step, hm, History.record]
          have hpublished := (ht.start field f).finish (ht.begin? hm)
          rwa [List.append_assoc, List.singleton_append] at hpublished
  | start field f name =>
      cases hm : s.begin? field f with
      | none =>
          simp only [Store.step, hm]
          exact ht
      | some m =>
          simp only [Store.step, hm, History.record]
          exact (ht.start field f).hold name (ht.begin? hm)
  | finish name =>
      cases hm : s.waiting.lookup name with
      | none =>
          simp only [Store.step, hm]
          exact ht
      | some m =>
          -- the store and the history wait for the same call under the name
          obtain ⟨c, hc, hholds⟩ := ht.waiting hm
          simp only [Store.step, hm, History.record, hc]
          exact (ht.forget name).finish hholds
  | cancel name => exact ht.forget name
  -- what is left writes no state and starts no mutator
  | view name => exact ht.same_state (ht.owned.step (.view name)) (by simp [Store.step, state]) rfl
  | flow x => exact ht.same_state (ht.owned.step (.flow x)) (state_flow ht.owned x) rfl

theorem Traced.run (ht : Traced initial s h) (steps : List (Step V)) :
    Traced initial (s.run steps).2 (historyFrom s h steps) := by
  induction steps generalizing s h with
  | nil => exact ht
  | cons x rest ih => exact ih (ht.step x)

/-! ## The chain of a run -/

/-- **A state is made of a chain of calls.** After any run of a new store there is exactly one chain
    of calls through its starts and finishes, and the state is the initial one with the calls on the
    chain applied in order. What is not on it has left no trace. Of two calls that read the same
    state at most one is on it, and one is if one of the two is undisturbed: an undisturbed call
    always is on it. Where no two calls overlap, it has every call that finished. -/
theorem state_eq_chain (initial : Record V) (steps : List (Step V)) :
    let as := acts initial steps
    ∃ cs, Chain as cs ∧ (∀ cs', Chain as cs' → cs' = cs) ∧
      ((ofState initial).run steps).2.state = applyAll initial cs ∧
      (∀ c d, c ≠ d → SameSnapshot as c d →
        (c ∉ cs ∨ d ∉ cs) ∧ (Undisturbed as c ∨ Undisturbed as d → c ∈ cs ∨ d ∈ cs)) ∧
      (∀ c, Undisturbed as c → c ∈ cs) ∧
      (Apart as → cs = finishedCalls as) := by
  intro as
  have ht : Traced initial ((ofState initial).run steps).2 _ := (Traced.empty initial).run steps
  obtain ⟨cs, hcs, hstate⟩ := ht.chain
  have hsurvives : ∀ c, Undisturbed as c → c ∈ cs :=
    fun c hc => hcs.undisturbed ht.ordered hc
  refine ⟨cs, hcs, ?_, hstate, ?_, hsurvives, hcs.eq_finishedCalls⟩
  · intro cs' hcs'
    exact hcs'.unique ht.ordered hcs
  · intro c d hcd hsame
    exact ⟨hcs.not_both ht.ordered hcd hsame, Or.imp (hsurvives c) (hsurvives d)⟩

/-- A counter whose label is changed by a mutator that started before the count was changed: the
    change of the count is lost. -/
theorem state_eq_chain_lost_count :
    let count : Call FieldValue := ⟨0, "count", (Transform.add 1).apply⟩
    let label : Call FieldValue := ⟨1, "label", (Transform.setText "b").apply⟩
    let steps : List (Step FieldValue) :=
      [.start count.field count.transform "m", .start label.field label.transform "n",
        .finish "m", .finish "n"]
    let as := acts (Counter.state 0 "a") steps
    SameSnapshot as count label ∧ Undisturbed as label ∧
      ((ofState (Counter.state 0 "a")).run steps).2.state = Counter.state 0 "b" ∧
      ∃ cs, Chain as cs ∧ count ∉ cs ∧ label ∈ cs ∧
        Counter.state 0 "b" = applyAll (Counter.state 0 "a") cs := by
  intro count label steps as
  have hsame : SameSnapshot as count label :=
    ⟨[], [.started label, .finished count, .finished label], [.started count],
      [.finished count, .finished label], rfl, rfl, rfl⟩
  have hlabel : Undisturbed as label :=
    ⟨[.started count, .started label, .finished count], [], rfl, by simp⟩
  have hne : count ≠ label := fun he => absurd (congrArg Call.number he) (by decide)
  have hstate : ((ofState (Counter.state 0 "a")).run steps).2.state = Counter.state 0 "b" := rfl
  obtain ⟨cs, hcs, -, hrun, hpair, hsurvives, -⟩ := state_eq_chain (Counter.state 0 "a") steps
  have hin : label ∈ cs := hsurvives label hlabel
  refine ⟨hsame, hlabel, hstate, cs, hcs, ?_, hin, hstate.symm.trans hrun⟩
  exact (hpair count label hne hsame).1.resolve_right (fun hout => hout hin)

/-- Of two calls that read the same state it can be that neither survives. A mutator of the list
    starts, and the text is edited; then mutators of the text and of the count start from one state,
    and both publish before that of the list does. The state at the end has the change of the list
    alone. -/
theorem neither_survives :
    let list : Call FieldValue := ⟨0, "list", (Transform.push [1]).apply⟩
    let edited : Call FieldValue := ⟨1, "text", (Transform.setText "z").apply⟩
    let text : Call FieldValue := ⟨2, "text", (Transform.setText "b").apply⟩
    let count : Call FieldValue := ⟨3, "count", (Transform.add 1).apply⟩
    let initial : Record FieldValue :=
      [("text", .text "a"), ("count", .integer .signed32 0), ("list", .lists [])]
    let steps : List (Step FieldValue) :=
      [.start list.field list.transform "o", .edit edited.field edited.transform,
        .start text.field text.transform "m", .start count.field count.transform "n",
        .finish "m", .finish "n", .finish "o"]
    let as := acts initial steps
    text ≠ count ∧ SameSnapshot as text count ∧ text ∈ finishedCalls as ∧ count ∈ finishedCalls as ∧
      Chain as [list] ∧ (∀ cs, Chain as cs → text ∉ cs ∧ count ∉ cs) ∧
      ((ofState initial).run steps).2.state =
        [("text", .text "a"), ("count", .integer .signed32 0), ("list", .lists [[1]])] := by
  intro list edited text count initial steps as
  have hacts : as = [.started list, .started edited, .finished edited, .started text,
      .started count, .finished text, .finished count, .finished list] := by
    dsimp +zetaDelta only
    rfl
  have hordered : WellOrdered as := ((Traced.empty initial).run steps).ordered
  -- nothing had finished when the last call to finish started
  have hchain : Chain as [list] := by
    have hbefore : Chain ([] : List (Act FieldValue)) [] := .none rfl
    rw [hacts]
    exact hbefore.finish list
      [.started edited, .finished edited, .started text, .started count, .finished text,
        .finished count]
  have hdistinct : text ≠ count ∧ text ≠ list ∧ count ≠ list := by
    simp [list, text, count]
  refine ⟨hdistinct.1, ?_, ?_, ?_, hchain, ?_, ?_⟩
  · rw [hacts]
    exact ⟨[.started list, .started edited, .finished edited],
      [.started count, .finished text, .finished count, .finished list],
      [.started list, .started edited, .finished edited, .started text],
      [.finished text, .finished count, .finished list], rfl, rfl, rfl⟩
  · simp [hacts]
  · simp [hacts]
  · intro cs hcs
    rw [hcs.unique hordered hchain]
    simp [hdistinct]
  · dsimp +zetaDelta only
    rfl

end ObservableStore.Store
