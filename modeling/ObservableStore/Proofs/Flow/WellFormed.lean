import ObservableStore.Proofs.Flow.History

/-!
# `Proofs.Flow.WellFormed` — who is registered where

A flow reaches its subscriptions by numbers, and a name reaches a subscription by a look-up. For the
two to agree, numbers must not be given twice, no two names may stand for one subscription, and a
live subscription must be registered with its own flow and no other. `WellFormed` says this, and
every change keeps it (`WellFormed.change`).

The clause that carries the delivery theorems is `registered_iff`: an emit prunes the registered
numbers by the list of live ones, and what is left is exactly the live subscriptions of its flow
(`mem_reached_iff`).
-/

namespace ObservableStore.Flow

variable {κ α : Type} [DecidableEq κ]

/-- A table as steps make it. -/
structure WellFormed (t : Table κ α) : Prop where
  /-- No name stands for two handles. -/
  names_nodup : t.names.Nodup
  /-- Every handle belongs to a flow of the table. -/
  flow_lt : ∀ {k h}, t.handle? k = some h → h.flow < t.flows.length
  /-- The numbers of subscriptions have been given. -/
  number_lt : ∀ {k n f s}, t.handle? k = some (.subscription n f s) → n < t.opened
  /-- No two names stand for the same subscription. -/
  number_inj : ∀ {k k' n f f' s s'}, t.handle? k = some (.subscription n f s) →
    t.handle? k' = some (.subscription n f' s') → k = k'
  registered_lt : ∀ {g n : Nat} {c : Cell α}, t.flows[g]? = some c → n ∈ c.registered → n < t.opened
  registered_nodup : ∀ {g : Nat} {c : Cell α}, t.flows[g]? = some c → c.registered.Nodup
  /-- A live subscription is registered with its own flow and no other. -/
  registered_iff : ∀ {k n f s} {g : Nat} {c : Cell α}, t.handle? k = some (.subscription n f s) →
    t.flows[g]? = some c → (n ∈ c.registered ↔ g = f)

namespace WellFormed

variable {P : κ → Prop} {t t' : Table κ α}

theorem empty : WellFormed (Table.empty : Table κ α) where
  names_nodup := List.nodup_nil
  flow_lt := by simp [Table.empty, Table.handle?]
  number_lt := by simp [Table.empty, Table.handle?]
  number_inj := by simp [Table.empty, Table.handle?]
  registered_lt := by simp [Table.empty]
  registered_nodup := by simp [Table.empty]
  registered_iff := by simp [Table.empty]

/-! ## What an emit reaches -/

/-- **An emit reaches its own subscriptions.** Of the live subscriptions, an emitted value reaches
    exactly those of its flow. -/
theorem mem_reached_iff (ht : WellFormed t) {k : κ} {n f g : Nat} {s : Subscription α}
    (hk : t.handle? k = some (.subscription n f s)) : n ∈ t.reached g ↔ g = f := by
  have hlive : n ∈ t.live := (Table.mem_live_iff ht.names_nodup).mpr ⟨k, f, s, hk⟩
  have hf : f < t.flows.length := ht.flow_lt hk
  unfold Table.reached
  cases hc : t.flows[g]? with
  | none =>
      have hge : t.flows.length ≤ g := List.getElem?_eq_none_iff.mp hc
      simp only [Option.map_none, Option.getD_none, List.filter_nil, List.not_mem_nil, false_iff]
      omega
  | some c =>
      simp only [Option.map_some, Option.getD_some, List.mem_filter]
      rw [ht.registered_iff hk hc]
      simp [hlive]

/-! ## Every change keeps it -/

/-- Letting a name stand for a writer or a view keeps a table well-formed. -/
theorem bind_keeper (ht : WellFormed t) (name : κ) {h : Handle α} (hn : h.number? = none)
    (hf : h.flow < t.flows.length) : WellFormed (t.bind name h) := by
  have hsub : ∀ {k n f s}, (t.bind name h).handle? k = some (.subscription n f s) →
      t.handle? k = some (.subscription n f s) := by
    intro k n f s hk
    rcases Table.handle?_bind_cases hk with ⟨-, rfl⟩ | ⟨-, hold⟩
    · cases hn
    · exact hold
  exact {
    names_nodup := Table.nodup_names_bind ht.names_nodup name h
    flow_lt := by
      intro k h' hk
      rcases Table.handle?_bind_cases hk with ⟨-, rfl⟩ | ⟨-, hold⟩
      · exact hf
      · exact ht.flow_lt hold
    number_lt := fun hk => ht.number_lt (hsub hk)
    number_inj := fun hk hk' => ht.number_inj (hsub hk) (hsub hk')
    registered_lt := ht.registered_lt
    registered_nodup := ht.registered_nodup
    registered_iff := fun hk hc => ht.registered_iff (hsub hk) hc }

/-- Dropping a name keeps a table well-formed. -/
theorem drop (ht : WellFormed t) (name : κ) : WellFormed (t.drop name) where
  names_nodup := Table.nodup_names_drop ht.names_nodup name
  flow_lt hk := ht.flow_lt (Table.handle?_of_drop hk)
  number_lt hk := ht.number_lt (Table.handle?_of_drop hk)
  number_inj hk hk' := ht.number_inj (Table.handle?_of_drop hk) (Table.handle?_of_drop hk')
  registered_lt := ht.registered_lt
  registered_nodup := ht.registered_nodup
  registered_iff hk hc := ht.registered_iff (Table.handle?_of_drop hk) hc

/-- A new flow has no subscriptions, and all others keep theirs. -/
theorem add_flow (ht : WellFormed t) (initial : α) :
    WellFormed { t with flows := t.flows ++ [⟨initial, []⟩] } := by
  have hcell : ∀ {g : Nat} {c : Cell α}, (t.flows ++ [⟨initial, []⟩])[g]? = some c →
      t.flows[g]? = some c ∨ (g = t.flows.length ∧ c = ⟨initial, []⟩) := by
    intro g c hc
    rw [List.getElem?_append] at hc
    split at hc
    · exact Or.inl hc
    · right
      obtain ⟨hlt, heq⟩ := List.getElem?_eq_some_iff.mp hc
      simp only [List.length_cons, List.length_nil] at hlt
      refine ⟨by omega, ?_⟩
      rw [← heq]
      simp
  exact {
    names_nodup := ht.names_nodup
    flow_lt := by
      intro k h hk
      have := ht.flow_lt (k := k) hk
      simp only [List.length_append, List.length_cons, List.length_nil]
      omega
    number_lt := ht.number_lt
    number_inj := ht.number_inj
    registered_lt := by
      intro g n c hc hn
      rcases hcell hc with hold | ⟨-, rfl⟩
      · exact ht.registered_lt hold hn
      · simp at hn
    registered_nodup := by
      intro g c hc
      rcases hcell hc with hold | ⟨-, rfl⟩
      · exact ht.registered_nodup hold
      · exact List.nodup_nil
    registered_iff := by
      intro k n f s g c hk hc
      rcases hcell hc with hold | ⟨rfl, rfl⟩
      · exact ht.registered_iff hk hold
      · have : f < t.flows.length := ht.flow_lt (k := k) hk
        simp only [List.not_mem_nil, false_iff]
        omega }

/-- An emit leaves the registered subscriptions that are live, each where it was. -/
theorem emit (ht : WellFormed t) {f : Nat} (v : α) (hf : f < t.flows.length) :
    WellFormed (t.emit f v) := by
  have hold : ∀ {k n g s'}, (t.emit f v).handle? k = some (.subscription n g s') →
      ∃ s, t.handle? k = some (.subscription n g s) := by
    intro k n g s' hk
    obtain ⟨h, hh, hr⟩ := Table.handle?_of_emit hk
    obtain ⟨s, rfl, -⟩ := Handle.eq_subscription_of_receive hr
    exact ⟨s, hh⟩
  -- the flow that is emitted on keeps the registered numbers that are live; other flows keep all
  have hcell : ∀ {g : Nat} {c : Cell α}, (t.emit f v).flows[g]? = some c →
      (g = f ∧ c = ⟨v, t.reached f⟩) ∨ (g ≠ f ∧ t.flows[g]? = some c) := by
    intro g c hc
    change (t.flows.set f ⟨v, t.reached f⟩)[g]? = some c at hc
    by_cases hg : g = f
    · subst hg
      rw [List.getElem?_set_self hf, Option.some.injEq] at hc
      exact Or.inl ⟨rfl, hc.symm⟩
    · rw [List.getElem?_set_ne (Ne.symm hg)] at hc
      exact Or.inr ⟨hg, hc⟩
  have hreached : t.reached f = (t.flows[f]).registered.filter t.live.contains := by
    simp [Table.reached, List.getElem?_eq_getElem hf]
  exact {
    names_nodup := by rw [Table.names_emit]; exact ht.names_nodup
    flow_lt := by
      intro k h' hk
      obtain ⟨h, hh, rfl⟩ := Table.handle?_of_emit hk
      rw [Handle.flow_receive]
      show h.flow < (t.flows.set f _).length
      rw [List.length_set]
      exact ht.flow_lt hh
    number_lt := fun hk => by
      obtain ⟨s, hs⟩ := hold hk
      exact ht.number_lt hs
    number_inj := fun hk hk' => by
      obtain ⟨s, hs⟩ := hold hk
      obtain ⟨s', hs'⟩ := hold hk'
      exact ht.number_inj hs hs'
    registered_lt := by
      intro g n c hc hn
      rcases hcell hc with ⟨-, rfl⟩ | ⟨-, hc'⟩
      · rw [hreached] at hn
        exact ht.registered_lt (List.getElem?_eq_getElem hf) (List.mem_filter.mp hn).1
      · exact ht.registered_lt hc' hn
    registered_nodup := by
      intro g c hc
      rcases hcell hc with ⟨-, rfl⟩ | ⟨-, hc'⟩
      · show (t.reached f).Nodup
        rw [hreached]
        exact (ht.registered_nodup (List.getElem?_eq_getElem hf)).filter _
      · exact ht.registered_nodup hc'
    registered_iff := by
      intro k n g' s' g c hk hc
      obtain ⟨s, hs⟩ := hold hk
      rcases hcell hc with ⟨rfl, rfl⟩ | ⟨-, hc'⟩
      · exact ht.mem_reached_iff hs
      · exact ht.registered_iff hs hc' }

/-- Opening a subscription registers its number, which is new, with its flow. -/
theorem subscribe (ht : WellFormed t) {f : Nat} (current : α) (name : κ)
    (hf : f < t.flows.length) : WellFormed (t.subscribe f current name) := by
  have hsub : ∀ {k n g s}, (t.subscribe f current name).handle? k = some (.subscription n g s) →
      (k = name ∧ n = t.opened ∧ g = f) ∨
        (k ≠ name ∧ t.handle? k = some (.subscription n g s)) := by
    intro k n g s hk
    rcases Table.handle?_bind_cases hk with ⟨hkn, hnew⟩ | hold
    · cases hnew
      exact Or.inl ⟨hkn, rfl, rfl⟩
    · exact Or.inr hold
  have hcell : ∀ {g : Nat} {c : Cell α}, (t.subscribe f current name).flows[g]? = some c →
      ∃ c₀, t.flows[g]? = some c₀ ∧
        c.registered = if g = f then c₀.registered ++ [t.opened] else c₀.registered := by
    intro g c hc
    change (t.flows.modify f _)[g]? = some c at hc
    rw [List.getElem?_modify] at hc
    obtain ⟨c₀, hc₀, rfl⟩ := Option.map_eq_some_iff.mp hc
    refine ⟨c₀, hc₀, ?_⟩
    by_cases hg : g = f
    · subst hg; simp
    · simp [hg, Ne.symm hg]
  exact {
    names_nodup := Table.nodup_names_bind ht.names_nodup name _
    flow_lt := by
      intro k h hk
      show h.flow < (t.flows.modify f _).length
      rw [List.length_modify]
      rcases Table.handle?_bind_cases hk with ⟨-, rfl⟩ | ⟨-, hold⟩
      · exact hf
      · exact ht.flow_lt hold
    number_lt := by
      intro k n g s hk
      show n < t.opened + 1
      rcases hsub hk with ⟨-, rfl, -⟩ | ⟨-, hk'⟩
      · exact Nat.lt_succ_self _
      · exact Nat.lt_succ_of_lt (ht.number_lt hk')
    number_inj := by
      intro k k' n g g' s s' hk hk'
      rcases hsub hk with ⟨hkn, hn, -⟩ | ⟨-, hold⟩ <;>
        rcases hsub hk' with ⟨hkn', hn', -⟩ | ⟨-, hold'⟩
      · rw [hkn, hkn']
      · exact absurd (hn ▸ ht.number_lt hold') (Nat.lt_irrefl _)
      · exact absurd (hn' ▸ ht.number_lt hold) (Nat.lt_irrefl _)
      · exact ht.number_inj hold hold'
    registered_lt := by
      intro g n c hc hn
      show n < t.opened + 1
      obtain ⟨c₀, hc₀, hreg⟩ := hcell hc
      rw [hreg] at hn
      split at hn
      · rcases List.mem_append.mp hn with hold | hnew
        · exact Nat.lt_succ_of_lt (ht.registered_lt hc₀ hold)
        · rw [List.mem_singleton.mp hnew]
          exact Nat.lt_succ_self _
      · exact Nat.lt_succ_of_lt (ht.registered_lt hc₀ hn)
    registered_nodup := by
      intro g c hc
      obtain ⟨c₀, hc₀, hreg⟩ := hcell hc
      rw [hreg]
      split
      · rw [List.nodup_append]
        refine ⟨ht.registered_nodup hc₀, by simp, ?_⟩
        rintro a ha b hb rfl
        exact absurd (List.mem_singleton.mp hb ▸ ht.registered_lt hc₀ ha) (Nat.lt_irrefl _)
      · exact ht.registered_nodup hc₀
    registered_iff := by
      intro k n g' s g c hk hc
      obtain ⟨c₀, hc₀, hreg⟩ := hcell hc
      rw [hreg]
      rcases hsub hk with ⟨-, rfl, rfl⟩ | ⟨-, hold⟩
      · -- the new number is registered nowhere else
        have hfresh : t.opened ∉ c₀.registered :=
          fun hm => Nat.lt_irrefl _ (ht.registered_lt hc₀ hm)
        by_cases hg : g = g' <;> simp [hg, hfresh]
      · have hne : n ≠ t.opened := Nat.ne_of_lt (ht.number_lt hold)
        rw [← ht.registered_iff hold hc₀]
        split <;> simp [hne] }

/-- A subscription that gave values away is still the same subscription. -/
theorem bind_subscription (ht : WellFormed t) {name : κ} {n f : Nat} {s : Subscription α}
    (hname : t.handle? name = some (.subscription n f s)) (s' : Subscription α) :
    WellFormed (t.bind name (.subscription n f s')) := by
  have hsub : ∀ {k m g u}, (t.bind name (.subscription n f s')).handle? k
      = some (.subscription m g u) → ∃ u', t.handle? k = some (.subscription m g u') := by
    intro k m g u hk
    rcases Table.handle?_bind_cases hk with ⟨rfl, hsame⟩ | ⟨-, hold⟩
    · cases hsame
      exact ⟨s, hname⟩
    · exact ⟨u, hold⟩
  exact {
    names_nodup := Table.nodup_names_bind ht.names_nodup name _
    flow_lt := by
      intro k h hk
      rcases Table.handle?_bind_cases hk with ⟨-, rfl⟩ | ⟨-, hold⟩
      · show (Handle.subscription n f s).flow < t.flows.length
        exact ht.flow_lt hname
      · exact ht.flow_lt hold
    number_lt := fun hk => by
      obtain ⟨u, hu⟩ := hsub hk
      exact ht.number_lt hu
    number_inj := fun hk hk' => by
      obtain ⟨u, hu⟩ := hsub hk
      obtain ⟨u', hu'⟩ := hsub hk'
      exact ht.number_inj hu hu'
    registered_lt := ht.registered_lt
    registered_nodup := ht.registered_nodup
    registered_iff := fun hk hc => by
      obtain ⟨u, hu⟩ := hsub hk
      exact ht.registered_iff hu hc }

/-- A name that keeps a flow alive keeps a flow of the table alive. -/
theorem flowOf?_lt (ht : WellFormed t) {k : κ} {f : Nat} (hf : t.flowOf? k = some f) :
    f < t.flows.length := by
  obtain ⟨h, hh, hk⟩ := Option.bind_eq_some_iff.mp hf
  rw [← Handle.flow_of_keeps? hk]
  exact ht.flow_lt hh

/-- **Every change keeps a table well-formed.** -/
theorem change (ht : WellFormed t) {e : Event α} (c : Table.Change P t e t') : WellFormed t' := by
  cases c with
  | silent => exact ht
  | made _ initial => exact (ht.add_flow initial).bind_keeper _ rfl (by simp [Handle.flow])
  | emitted _ v hw => exact ht.emit v (ht.flow_lt hw)
  | viewed _ hf => exact ht.bind_keeper _ rfl (ht.flowOf?_lt hf)
  | opened _ hf hv => exact ht.subscribe _ _ (ht.flowOf?_lt hf)
  | dropped _ => exact ht.drop _
  | taken _ hname _ => exact ht.bind_subscription hname _

/-- Every run of changes keeps a table well-formed. -/
theorem changes (ht : WellFormed t) {es : List (Event α)} (c : Table.Changes P t es t') :
    WellFormed t' := by
  induction c with
  | refl => exact ht
  | tail _ c ih => exact ih.change c

end WellFormed

end ObservableStore.Flow
