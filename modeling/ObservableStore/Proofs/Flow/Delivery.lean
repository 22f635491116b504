import ObservableStore.Proofs.Flow.Effects
import ObservableStore.Proofs.Split

/-!
# `Proofs.Flow.Delivery` — every subscriber gets every value, once and in order

**Exact delivery.** Whatever steps a run takes, what a subscription has returned and then what it
holds still is the value current at its opening and then every value emitted on its flow since
(`delivery_exact`). Nothing is lost, doubled, reordered or merged.

Shape of the argument. `Change.subscription` says what one change does to one live subscription:
values leave what it holds at the front, as many as it returned, and the emitted value enters at the
end, if it was emitted on its flow. Over a run these add up (`Delivered`), by induction on the run
from its end.
-/

namespace ObservableStore.Flow

variable {κ α : Type} [DecidableEq κ] {P : κ → Prop} {t t' : Table κ α}

/-! ## A whole run -/

theorem published_append (f : Nat) (es es' : List (Event α)) :
    published f (es ++ es') = published f es ++ published f es' := List.flatMap_append

theorem emitted_append (f : Nat) (es es' : List (Event α)) :
    emitted f (es ++ es') = emitted f es ++ emitted f es' := List.flatMap_append

theorem taken_append (n : Nat) (es es' : List (Event α)) :
    taken n (es ++ es') = taken n es ++ taken n es' := List.flatMap_append

/-- What a run from the empty table has left behind, said by its events. -/
structure Delivered (es : List (Event α)) (t : Table κ α) : Prop where
  /-- The current value of a flow is the one published last. -/
  value : ∀ g, t.value? g = (published g es).getLast?
  /-- On a flow of the table, the initial value was published first and then what was emitted. -/
  initial : ∀ g, g < t.flows.length → ∃ v, published g es = v :: emitted g es
  unused : ∀ g, t.flows.length ≤ g → published g es = [] ∧ emitted g es = []
  opened_lt : ∀ {n f}, Event.opened n f ∈ es → n < t.opened
  was_opened : ∀ {k n f s}, t.handle? k = some (.subscription n f s) → Event.opened n f ∈ es
  /-- Since a live subscription was opened, it returned and holds the value current then and every
      value emitted on its flow. -/
  exact : ∀ {before after n f}, es = before ++ .opened n f :: after →
    ∀ {k g s}, t.handle? k = some (.subscription n g s) →
      g = f ∧ ∃ v, (published f before).getLast? = some v ∧
        taken n after ++ s.held = v :: emitted f after

theorem Delivered.empty : Delivered [] (Table.empty : Table κ α) where
  value := by simp [Table.empty, Table.value?, published]
  initial := by simp [Table.empty]
  unused := by simp [published, emitted]
  opened_lt := by simp
  was_opened := by simp [Table.empty, Table.handle?]
  exact := by simp

@[simp] theorem published_single (f : Nat) (e : Event α) : published f [e] = e.publishedOn f :=
  List.flatMap_singleton ..

@[simp] theorem emitted_single (f : Nat) (e : Event α) : emitted f [e] = e.emittedOn f :=
  List.flatMap_singleton ..

@[simp] theorem taken_single (n : Nat) (e : Event α) : taken n [e] = e.takenBy n :=
  List.flatMap_singleton ..

/-- **One change delivers.** -/
theorem Delivered.tail {es : List (Event α)} (hd : Delivered es t) (ht : WellFormed t)
    {e : Event α} (c : Table.Change P t e t') : Delivered (es ++ [e]) t' where
  value := by
    intro g
    rw [c.value? ht g, hd.value g, published_append, published_single, List.getLast?_append]
  initial := by
    intro g hg
    rw [published_append, emitted_append, published_single, emitted_single]
    rcases c.flows_length ht with ⟨hlen, hsame⟩ | ⟨v, hlen, rfl⟩
    · obtain ⟨v, hv⟩ := hd.initial g (hlen ▸ hg)
      exact ⟨v, by rw [hv, (hsame g).1, List.cons_append]⟩
    · by_cases hnew : g = t.flows.length
      · obtain ⟨hp, he⟩ := hd.unused g (Nat.le_of_eq hnew.symm)
        exact ⟨v, by rw [hp, he]; simp [Event.publishedOn, Event.emittedOn, hnew]⟩
      · obtain ⟨v₀, hv₀⟩ := hd.initial g (by omega)
        exact ⟨v₀, by simp [hv₀, Event.publishedOn, Event.emittedOn, Ne.symm hnew]⟩
  unused := by
    intro g hg
    rw [published_append, emitted_append, published_single, emitted_single]
    rcases c.flows_length ht with ⟨hlen, hsame⟩ | ⟨v, hlen, rfl⟩
    · have hge : t.flows.length ≤ g := hlen ▸ hg
      obtain ⟨hp, he⟩ := hd.unused g hge
      rw [(hsame g).1, (hsame g).2 hge, hp, he]
      exact ⟨rfl, rfl⟩
    · have hne : t.flows.length ≠ g := by omega
      obtain ⟨hp, he⟩ := hd.unused g (by omega)
      simp [hp, he, Event.publishedOn, Event.emittedOn, hne]
  opened_lt := by
    intro n f hm
    rcases List.mem_append.mp hm with hold | hnew
    · exact Nat.lt_of_lt_of_le (hd.opened_lt hold) c.opened_numbers.1
    · exact (c.opened_numbers.2 n f (List.mem_singleton.mp hnew).symm).2
  was_opened := by
    intro k n f s hk
    rcases c.subscription ht hk with ⟨rfl, -⟩ | ⟨s₀, hk₀, -⟩
    · exact List.mem_append_right _ List.mem_cons_self
    · exact List.mem_append_left _ (hd.was_opened hk₀)
  exact := by
    intro before after n f hes k g s hk
    rcases split_concat hes with ⟨rfl, rfl, rfl⟩ | ⟨mid, rfl, rfl⟩
    · -- the subscription is opened by the last change, so nothing was live under its number
      have hn := (c.opened_numbers.2 n f rfl).1
      rcases c.subscription ht hk with ⟨he, -, v, hv, rfl⟩ | ⟨s₀, hk₀, -⟩
      · simp only [Event.opened.injEq, true_and] at he
        subst he
        exact ⟨rfl, v, by rw [← hd.value, hv], rfl⟩
      · exact absurd (hn ▸ ht.number_lt hk₀) (Nat.lt_irrefl _)
    · have hn : n < t.opened := hd.opened_lt (List.mem_append_right _ List.mem_cons_self)
      rcases c.subscription ht hk with ⟨-, hnew, -⟩ | ⟨s₀, hk₀, hheld⟩
      · exact absurd (hnew ▸ hn) (Nat.lt_irrefl _)
      · obtain ⟨rfl, v, hv, hdeliv⟩ := hd.exact rfl hk₀
        refine ⟨rfl, v, hv, ?_⟩
        rw [taken_append, emitted_append, taken_single, emitted_single, List.append_assoc, hheld,
          ← List.append_assoc, hdeliv, List.cons_append]

/-- **Every run delivers.** -/
theorem Delivered.changes {es : List (Event α)} (c : Table.Changes P Table.empty es t) :
    Delivered es t := by
  induction c with
  | refl => exact Delivered.empty
  | tail h c ih => exact ih.tail (WellFormed.empty.changes h) c

/-! ## Exact delivery -/

/-- **Exact delivery.** After any run of steps, every live subscription was opened in it; what a
    subscription returned since its opening and then what it holds is the value current at the
    opening and then all that was emitted on its flow since; and asking a handle for the value of its
    flow gives the value emitted last, or the initial one. -/
theorem delivery_exact (steps : List (Step κ α)) :
    let es := (Table.empty : Table κ α).events steps
    let t := ((Table.empty : Table κ α).run steps).2
    (∀ name n f s, t.handle? name = some (.subscription n f s) → .opened n f ∈ es) ∧
    (∀ before after n f, es = before ++ .opened n f :: after →
      ∀ name g s, t.handle? name = some (.subscription n g s) →
        g = f ∧ ∃ v, (published f before).getLast? = some v ∧
          taken n after ++ s.held = v :: emitted f after) ∧
    (∀ name f, t.flowOf? name = some f →
      ∃ initial, published f es = initial :: emitted f es ∧
        t.step (.value name) = (.value ((emitted f es).getLast?.getD initial), t)) := by
  intro es t
  have hrun := Table.run_changes (Table.empty : Table κ α) steps
  have hd : Delivered es t := Delivered.changes hrun
  have ht : WellFormed t := WellFormed.empty.changes hrun
  refine ⟨fun _ _ _ _ hk => hd.was_opened hk, fun _ _ _ _ hes _ _ _ hk => hd.exact hes hk, ?_⟩
  intro name f hf
  obtain ⟨initial, hp⟩ := hd.initial f (ht.flowOf?_lt hf)
  refine ⟨initial, hp, ?_⟩
  have hv : t.value? f = some ((emitted f es).getLast?.getD initial) := by
    rw [hd.value f, hp, List.getLast?_cons]
  obtain ⟨h, hh, hk⟩ := Option.bind_eq_some_iff.mp hf
  cases h with
  | writer g =>
      obtain rfl : g = f := by simpa [Handle.keeps?] using hk
      simp [Table.step, Table.withSource, Table.withHandle, hh, hv]
  | view g =>
      obtain rfl : g = f := by simpa [Handle.keeps?] using hk
      simp [Table.step, Table.withSource, Table.withHandle, hh, hv]
  | subscription n g s => simp [Handle.keeps?] at hk

/-- Two readers of one flow, one of them dropped between two emits and the other one drained by two
    kinds of steps: the reader that stays has returned `7, 8` and holds `9`. -/
theorem delivery_exact_beside_dropped :
    (Table.empty : Table Nat Nat).events
        [.create 0 7, .subscribe 0 1, .view 0 2, .subscribe 2 3, .emit 0 8, .next 3, .drop 1,
          .emit 0 9, .tryNext 3]
      = [.made 0 7, .opened 0 0, .silent] ++ .opened 1 0 ::
          [.emitted 0 8, .taken 1 [7], .silent, .emitted 0 9, .taken 1 [8]] ∧
    ∃ v, (published 0 [.made 0 7, .opened 0 0, .silent]).getLast? = some v ∧
      taken 1 [.emitted 0 8, .taken 1 [7], .silent, .emitted 0 9, .taken 1 [8]]
          ++ (⟨none, [9]⟩ : Subscription Nat).held
        = v :: emitted 0 [.emitted 0 8, .taken 1 [7], .silent, .emitted 0 9, .taken 1 [8]] :=
  ⟨by decide,
    ((delivery_exact [.create 0 7, .subscribe 0 1, .view 0 2, .subscribe 2 3, .emit 0 8, .next 3,
      .drop 1, .emit 0 9, .tryNext 3]).2.1 _ _ 1 0 (by decide) 3 0 ⟨none, [9]⟩ (by decide)).2⟩

end ObservableStore.Flow
