import ObservableStore.Proofs.Flow.WellFormed

/-!
# `Proofs.Flow.Effects` — what one change does to each part of a table

One lemma for each thing that a reader of a table can ask about: a live subscription and what it
holds, the current value of a flow, the numbers given so far, and the writers. Every run-level
theorem about flows is an induction over these.
-/

namespace ObservableStore.Flow

variable {κ α : Type} [DecidableEq κ] {P : κ → Prop} {t t' : Table κ α}

/-! ## Subscriptions -/

/-- **What a change does to a subscription.** A live subscription was opened just now, or it was live
    before; then what it returned and holds now is what it held before and what was emitted. -/
theorem Table.Change.subscription (ht : WellFormed t) {e : Event α} (c : Table.Change P t e t')
    {k : κ} {n f : Nat} {s' : Subscription α} (hk : t'.handle? k = some (.subscription n f s')) :
    (e = .opened n f ∧ n = t.opened ∧ ∃ v, t.value? f = some v ∧ s' = .opened v) ∨
      ∃ s, t.handle? k = some (.subscription n f s) ∧
        e.takenBy n ++ s'.held = s.held ++ e.emittedOn f := by
  cases c with
  | silent => exact Or.inr ⟨s', hk, by simp [Event.takenBy, Event.emittedOn]⟩
  | made _ initial =>
      rcases Table.handle?_bind_cases hk with ⟨-, hnew⟩ | ⟨-, hold⟩
      · cases hnew
      · exact Or.inr ⟨s', hold, by simp [Event.takenBy, Event.emittedOn]⟩
  | @emitted w g _ v hw =>
      obtain ⟨h, hh, hr⟩ := Table.handle?_of_emit hk
      obtain ⟨s, rfl, hs'⟩ := Handle.eq_subscription_of_receive hr
      refine Or.inr ⟨s, hh, ?_⟩
      -- the value reaches the subscription exactly when it is emitted on its flow
      have hreach := ht.mem_reached_iff hh (g := g)
      by_cases hg : g = f
      · have hmem : n ∈ t.reached g := hreach.mpr hg
        rw [if_pos (List.contains_iff_mem.mpr hmem)] at hs'
        simp [hs', Event.takenBy, Event.emittedOn, hg]
      · have hmem : n ∉ t.reached g := fun hm => hg (hreach.mp hm)
        rw [if_neg (fun hm => hmem (List.contains_iff_mem.mp hm))] at hs'
        simp [hs', Event.takenBy, Event.emittedOn, hg]
  | viewed _ hf =>
      rcases Table.handle?_bind_cases hk with ⟨-, hnew⟩ | ⟨-, hold⟩
      · cases hnew
      · exact Or.inr ⟨s', hold, by simp [Event.takenBy, Event.emittedOn]⟩
  | @opened source new g current _ hf hv =>
      rcases Table.handle?_bind_cases hk with ⟨-, hnew⟩ | ⟨-, hold⟩
      · cases hnew
        exact Or.inl ⟨rfl, rfl, current, hv, rfl⟩
      · exact Or.inr ⟨s', hold, by simp [Event.takenBy, Event.emittedOn]⟩
  | dropped _ =>
      exact Or.inr ⟨s', Table.handle?_of_drop hk, by simp [Event.takenBy, Event.emittedOn]⟩
  | @taken name m g s u vs _ hname hheld =>
      rcases Table.handle?_bind_cases hk with ⟨rfl, hsame⟩ | ⟨hkn, hold⟩
      · cases hsame
        exact Or.inr ⟨s, hname, by simp [Event.takenBy, Event.emittedOn, hheld]⟩
      · -- another subscription was asked, and it has another number
        have hmn : m ≠ n := fun hmn => hkn (ht.number_inj hold (hmn ▸ hname))
        exact Or.inr ⟨s', hold, by simp [Event.takenBy, Event.emittedOn, hmn]⟩

/-! ## Current values and numbers -/

/-- **What a change does to current values.** A flow keeps its value unless one is published on it. -/
theorem Table.Change.value? (ht : WellFormed t) {e : Event α} (c : Table.Change P t e t') (g : Nat) :
    t'.value? g = (e.publishedOn g).getLast?.or (t.value? g) := by
  cases c with
  | silent => rfl
  | made _ initial =>
      rw [Table.value?_create]
      by_cases hg : g = t.flows.length
      · simp [Event.publishedOn, hg]
      · simp [Event.publishedOn, hg, Ne.symm hg]
  | @emitted w f _ v hw =>
      rw [Table.value?_emit t f v g (ht.flow_lt hw)]
      by_cases hg : g = f
      · simp [Event.publishedOn, hg]
      · simp [Event.publishedOn, hg, Ne.symm hg]
  | viewed _ hf => rfl
  | opened _ hf hv => exact Table.value?_subscribe ..
  | dropped _ => rfl
  | taken _ hname hheld => rfl

/-- Numbers of subscriptions only grow, and an opening gives the next one. -/
theorem Table.Change.opened_numbers {e : Event α} (c : Table.Change P t e t') :
    t.opened ≤ t'.opened ∧ ∀ n f, e = .opened n f → n = t.opened ∧ n < t'.opened := by
  cases c with
  | silent => simp
  | made _ initial => simp [Table.create, Table.bind, Table.drop]
  | emitted _ v hw => simp [Table.emit]
  | viewed _ hf => simp [Table.bind, Table.drop]
  | opened _ hf hv =>
      refine ⟨Nat.le_succ _, fun n f he => ?_⟩
      simp only [Event.opened.injEq] at he
      exact ⟨he.1.symm, he.1 ▸ Nat.lt_succ_self _⟩
  | dropped _ => simp [Table.drop]
  | taken _ hname hheld => simp [Table.bind, Table.drop]

/-- Nothing is emitted on a flow that nothing is published on. -/
theorem Event.emittedOn_of_publishedOn {e : Event α} {f : Nat} (h : e.publishedOn f = []) :
    e.emittedOn f = [] := by
  cases e with
  | emitted g v => exact h
  | silent => rfl
  | made g v => rfl
  | opened n g => rfl
  | taken n vs => rfl

/-- Flows are numbered in the order of their making, and only flows that were made are emitted on. -/
theorem Table.Change.flows_length (ht : WellFormed t) {e : Event α} (c : Table.Change P t e t') :
    (t'.flows.length = t.flows.length ∧ ∀ g, e.publishedOn g = e.emittedOn g ∧
        (t.flows.length ≤ g → e.emittedOn g = [])) ∨
      ∃ initial, t'.flows.length = t.flows.length + 1 ∧ e = .made t.flows.length initial := by
  cases c with
  | silent => exact Or.inl ⟨rfl, fun g => ⟨rfl, fun _ => rfl⟩⟩
  | made _ initial =>
      exact Or.inr ⟨initial, by simp [Table.create, Table.bind, Table.drop], rfl⟩
  | @emitted w f _ v hw =>
      refine Or.inl ⟨by simp [Table.emit], fun g => ⟨rfl, fun hg => ?_⟩⟩
      have hf : f < t.flows.length := ht.flow_lt hw
      rw [Event.emittedOn, if_neg (by omega)]
  | viewed _ hf => exact Or.inl ⟨rfl, fun g => ⟨rfl, fun _ => rfl⟩⟩
  | opened _ hf hv =>
      exact Or.inl ⟨List.length_modify .., fun g => ⟨rfl, fun _ => rfl⟩⟩
  | dropped _ => exact Or.inl ⟨rfl, fun g => ⟨rfl, fun _ => rfl⟩⟩
  | taken _ hname hheld => exact Or.inl ⟨rfl, fun g => ⟨rfl, fun _ => rfl⟩⟩

/-! ## Writers -/

/-- A writer under a name that is not touched stays. -/
theorem Table.Change.keeps_writer {e : Event α} (c : Table.Change P t e t') {k : κ} {f : Nat}
    (hk : ¬ P k) (h : t.handle? k = some (.writer f)) : t'.handle? k = some (.writer f) := by
  have hother : ∀ {name}, P name → k ≠ name := fun hP he => hk (he ▸ hP)
  cases c with
  | silent => exact h
  | made hP initial => rw [Table.handle?_create, if_neg (hother hP), h]
  | emitted hP v hw => rw [Table.handle?_emit, h]; rfl
  | viewed hP hf => rw [Table.handle?_bind, if_neg (hother hP), h]
  | opened hP hf hv => rw [Table.handle?_subscribe, if_neg (hother hP), h]
  | dropped hP => rw [Table.handle?_drop, if_neg (hother hP), h]
  | taken hP hname hheld => rw [Table.handle?_bind, if_neg (hother hP), h]

/-- A writer was there before or was made with a new flow. -/
theorem Table.Change.writer_cases {e : Event α} (c : Table.Change P t e t') {k : κ} {f : Nat}
    (h : t'.handle? k = some (.writer f)) :
    t.handle? k = some (.writer f) ∨ f = t.flows.length := by
  cases c with
  | silent => exact Or.inl h
  | made hP initial =>
      rcases Table.handle?_bind_cases h with ⟨-, hnew⟩ | ⟨-, hold⟩
      · cases hnew
        exact Or.inr rfl
      · exact Or.inl hold
  | emitted hP v hw =>
      obtain ⟨h₀, hh₀, hr⟩ := Table.handle?_of_emit h
      exact Or.inl (Handle.eq_writer_of_receive hr ▸ hh₀)
  | viewed hP hf =>
      rcases Table.handle?_bind_cases h with ⟨-, hnew⟩ | ⟨-, hold⟩
      · cases hnew
      · exact Or.inl hold
  | opened hP hf hv =>
      rcases Table.handle?_bind_cases h with ⟨-, hnew⟩ | ⟨-, hold⟩
      · cases hnew
      · exact Or.inl hold
  | dropped hP => exact Or.inl (Table.handle?_of_drop h)
  | taken hP hname hheld =>
      rcases Table.handle?_bind_cases h with ⟨-, hnew⟩ | ⟨-, hold⟩
      · cases hnew
      · exact Or.inl hold

/-- Only a writer emits. -/
theorem Table.Change.emitted_writer {f : Nat} {v : α}
    (c : Table.Change P t (.emitted f v) t') : ∃ w, P w ∧ t.handle? w = some (.writer f) := by
  cases c with
  | emitted hP v hw => exact ⟨_, hP, hw⟩

end ObservableStore.Flow
