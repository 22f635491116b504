import Mathlib.Data.List.Induction
import Mathlib.Data.List.Nodup
import Mathlib.Data.List.Perm.Subperm
import ObservableStore.Proofs.Flow.Delivery

/-!
# `Proofs.Flow.Registry` — who is registered with a flow, and how many

A flow registers a subscription when it is opened and finds out that one was dropped at the next emit
only. In between it counts too many: the number it tells is that of the subscriptions live at the
last emit and of those opened since, and of all that were ever opened while nothing was emitted
(`registry_exact`). So the number is never too small, and it is exact right after an emit.

What a subscription has returned has no part in it. Who is live is read off the handles (`liveOn`),
and who was opened since an emit off the events of the steps since (`openings`).

Shape of the argument. `Change.registered` says what one change does to the numbers registered with a
flow: they are cut down to the live ones if a value is emitted on it, and grow by the new ones
otherwise. Over a run the cuts before the last one are forgotten (`registered_after`), by induction
on the steps from their end.
-/

namespace ObservableStore.Flow

variable {κ α : Type} [DecidableEq κ] {P : κ → Prop} {t t' : Table κ α}

/-! ## Live, registered, opened -/

/-- The number of a subscription to a flow. -/
def Handle.numberOn? (f : Nat) : Handle α → Option Nat
  | .subscription n g _ => if g = f then some n else none
  | _ => none

/-- The number of the subscription that an event opens to a flow. -/
def Event.openedOn (f : Nat) : Event α → List Nat
  | .opened n g => if g = f then [n] else []
  | _ => []

/-- The numbers of the subscriptions opened to a flow. -/
def openings (f : Nat) (es : List (Event α)) : List Nat := es.flatMap (Event.openedOn f)

theorem openings_append (f : Nat) (es es' : List (Event α)) :
    openings f (es ++ es') = openings f es ++ openings f es' := List.flatMap_append

@[simp] theorem openings_single (f : Nat) (e : Event α) : openings f [e] = e.openedOn f :=
  List.flatMap_singleton ..

namespace Table

omit [DecidableEq κ] in
/-- The numbers of the subscriptions to a flow that are not dropped. -/
def liveOn (t : Table κ α) (f : Nat) : List Nat := t.handles.filterMap fun h => h.2.numberOn? f

omit [DecidableEq κ] in
/-- The numbers of the subscriptions registered with a flow. -/
def registered (t : Table κ α) (f : Nat) : List Nat :=
  (t.flows[f]?.map Cell.registered).getD []

theorem mem_liveOn_iff (ht : t.names.Nodup) {n f : Nat} :
    n ∈ t.liveOn f ↔ ∃ k s, t.handle? k = some (.subscription n f s) := by
  simp only [liveOn, List.mem_filterMap, Prod.exists]
  constructor
  · rintro ⟨k, h, hm, hn⟩
    cases h with
    | writer g => cases hn
    | view g => cases hn
    | subscription m g s =>
        simp only [Handle.numberOn?, Option.ite_none_right_eq_some, Option.some.injEq] at hn
        obtain ⟨rfl, rfl⟩ := hn
        exact ⟨k, s, (mem_handles_iff ht).mp hm⟩
  · rintro ⟨k, s, hk⟩
    exact ⟨k, _, (mem_handles_iff ht).mpr hk, by simp [Handle.numberOn?]⟩

end Table

namespace WellFormed

/-- No subscription is live twice. -/
theorem nodup_liveOn (ht : WellFormed t) (f : Nat) : (t.liveOn f).Nodup := by
  have hnames : t.handles.Pairwise fun a b => a.1 ≠ b.1 := List.pairwise_map.mp ht.names_nodup
  refine List.pairwise_filterMap.mpr (hnames.imp_of_mem ?_)
  rintro ⟨k, h⟩ ⟨k', h'⟩ hm hm' hne n hn n' hn' rfl
  have hk := (Table.mem_handles_iff ht.names_nodup).mp hm
  have hk' := (Table.mem_handles_iff ht.names_nodup).mp hm'
  cases h with
  | writer g => cases hn
  | view g => cases hn
  | subscription m g s =>
      cases h' with
      | writer g' => cases hn'
      | view g' => cases hn'
      | subscription m' g' s' =>
          simp only [Handle.numberOn?, Option.ite_none_right_eq_some, Option.some.injEq] at hn hn'
          obtain ⟨-, rfl⟩ := hn
          obtain ⟨-, rfl⟩ := hn'
          exact hne (ht.number_inj hk hk')

theorem nodup_registered (ht : WellFormed t) (f : Nat) : (t.registered f).Nodup := by
  unfold Table.registered
  cases hc : t.flows[f]? with
  | none => exact List.nodup_nil
  | some c => exact ht.registered_nodup hc

/-- A live subscription is registered with its own flow and no other. -/
theorem mem_registered_iff (ht : WellFormed t) {k : κ} {n f g : Nat} {s : Subscription α}
    (hk : t.handle? k = some (.subscription n f s)) : n ∈ t.registered g ↔ g = f := by
  have hf : f < t.flows.length := ht.flow_lt hk
  unfold Table.registered
  cases hc : t.flows[g]? with
  | none =>
      have hge : t.flows.length ≤ g := List.getElem?_eq_none_iff.mp hc
      simp only [Option.map_none, Option.getD_none, List.not_mem_nil, false_iff]
      omega
  | some c => exact ht.registered_iff hk hc

/-- Who is live is registered. -/
theorem liveOn_subset (ht : WellFormed t) (f : Nat) : t.liveOn f ⊆ t.registered f := by
  intro n hn
  obtain ⟨k, s, hk⟩ := (Table.mem_liveOn_iff ht.names_nodup).mp hn
  exact (ht.mem_registered_iff hk).mpr rfl

/-- **An emit reaches the live subscriptions of its flow**, each once. -/
theorem reached_perm (ht : WellFormed t) (f : Nat) : (t.reached f).Perm (t.liveOn f) := by
  have hreached : (t.reached f).Nodup := (ht.nodup_registered f).filter _
  refine (List.perm_ext_iff_of_nodup hreached (ht.nodup_liveOn f)).mpr fun n => ?_
  rw [Table.mem_liveOn_iff ht.names_nodup]
  constructor
  · intro hn
    have hlive : n ∈ t.live := List.contains_iff_mem.mp (List.mem_filter.mp hn).2
    obtain ⟨k, g, s, hk⟩ := (Table.mem_live_iff ht.names_nodup).mp hlive
    obtain rfl := (ht.mem_reached_iff hk).mp hn
    exact ⟨k, s, hk⟩
  · rintro ⟨k, s, hk⟩
    exact (ht.mem_reached_iff hk).mpr rfl

end WellFormed

/-! ## What one change does to the registered numbers -/

omit [DecidableEq κ] in
/-- An emit changes nobody's being live. -/
theorem Table.liveOn_emit (t : Table κ α) (f : Nat) (v : α) (g : Nat) :
    (t.emit f v).liveOn g = t.liveOn g := by
  unfold liveOn emit
  rw [List.filterMap_map]
  refine List.filterMap_congr fun h _ => ?_
  show (h.2.receive _ v).numberOn? g = h.2.numberOn? g
  cases h.2 <;> rfl

omit [DecidableEq κ] in
theorem Table.registered_emit_self {f : Nat} (hf : f < t.flows.length) (v : α) :
    (t.emit f v).registered f = t.reached f := by
  show ((t.flows.set f ⟨v, t.reached f⟩)[f]?.map Cell.registered).getD [] = _
  rw [List.getElem?_set_self hf]
  rfl

omit [DecidableEq κ] in
theorem Table.registered_emit_other {f g : Nat} (hg : g ≠ f) (v : α) :
    (t.emit f v).registered g = t.registered g := by
  show ((t.flows.set f _)[g]?.map Cell.registered).getD [] = _
  rw [List.getElem?_set_ne (Ne.symm hg)]
  rfl

theorem Table.registered_create (t : Table κ α) (name : κ) (initial : α) (f : Nat) :
    (t.create name initial).registered f = t.registered f := by
  show ((t.flows ++ [⟨initial, []⟩])[f]?.map Cell.registered).getD [] = _
  rcases Nat.lt_or_ge f t.flows.length with hlt | hge
  · rw [List.getElem?_append_left hlt]
    rfl
  · -- a new flow has nobody registered, and neither has one that is not there
    have hnone : t.flows[f]? = none := List.getElem?_eq_none hge
    rw [List.getElem?_append_right hge, Table.registered, hnone]
    cases f - t.flows.length <;> rfl

theorem Table.registered_subscribe {f : Nat} (hf : f < t.flows.length) (current : α) (name : κ)
    (g : Nat) : (t.subscribe f current name).registered g
      = t.registered g ++ if f = g then [t.opened] else [] := by
  show ((t.flows.modify f _)[g]?.map Cell.registered).getD [] = _
  rw [List.getElem?_modify, Table.registered]
  by_cases hg : f = g
  · subst hg
    simp [List.getElem?_eq_getElem hf]
  · cases t.flows[g]? <;> simp [hg]

/-- **What a change does to the registered numbers.** An emit on the flow leaves those that it
    reaches, and any other change adds what it opens. -/
theorem Table.Change.registered (ht : WellFormed t) {e : Event α} (c : Table.Change P t e t')
    (f : Nat) :
    (e.emittedOn f = [] → t'.registered f = t.registered f ++ e.openedOn f) ∧
      (e.emittedOn f ≠ [] → t'.registered f = t.reached f) := by
  have hsame {e : Event α} {t' : Table κ α} (hopened : e.openedOn f = [])
      (hemitted : e.emittedOn f = []) (h : t'.registered f = t.registered f) :
      (e.emittedOn f = [] → t'.registered f = t.registered f ++ e.openedOn f) ∧
        (e.emittedOn f ≠ [] → t'.registered f = t.reached f) := by
    refine ⟨fun _ => ?_, fun hne => absurd hemitted hne⟩
    rw [h, hopened, List.append_nil]
  cases c with
  | silent => exact hsame rfl rfl rfl
  | made _ initial => exact hsame rfl rfl (Table.registered_create ..)
  | viewed _ hf => exact hsame rfl rfl rfl
  | dropped _ => exact hsame rfl rfl rfl
  | taken _ hname hheld => exact hsame rfl rfl rfl
  | @opened source new g current _ hg hv =>
      refine ⟨fun _ => ?_, fun hne => absurd rfl hne⟩
      exact Table.registered_subscribe (ht.flowOf?_lt hg) current new f
  | @emitted writer g _ v hw =>
      by_cases hg : g = f
      · subst hg
        have hne : (Event.emitted g v).emittedOn g ≠ [] := by simp [Event.emittedOn]
        exact ⟨fun hnil => absurd hnil hne,
          fun _ => Table.registered_emit_self (ht.flow_lt hw) v⟩
      · have hnil : (Event.emitted g v).emittedOn f = [] := if_neg hg
        exact hsame rfl hnil (Table.registered_emit_other (Ne.symm hg) v)

/-! ## A whole run -/

namespace Table

theorem run_append (t : Table κ α) (xs ys : List (Step κ α)) :
    (t.run (xs ++ ys)).2 = ((t.run xs).2.run ys).2 := by
  induction xs generalizing t with
  | nil => rfl
  | cons x rest ih => exact ih (t.step x).2

theorem events_append (t : Table κ α) (xs ys : List (Step κ α)) :
    t.events (xs ++ ys) = t.events xs ++ (t.run xs).2.events ys := by
  induction xs generalizing t with
  | nil => rfl
  | cons x rest ih => exact congrArg (t.event x (t.step x).1 :: ·) (ih (t.step x).2)

/-- A value is emitted on a flow by a step that emits through the writer of the flow. -/
theorem emit_of_emittedOn {x : Step κ α} {f : Nat}
    (h : (t.event x (t.step x).1).emittedOn f ≠ []) :
    ∃ writer v, x = .emit writer v ∧ t.handle? writer = some (.writer f) := by
  have htaken {name : κ} {values : List α} :
      ((t.numberOf? name).elim .silent (.taken · values) : Event α).emittedOn f = [] := by
    cases t.numberOf? name <;> rfl
  cases x with
  | emit writer v =>
      rcases step_emit_cases t writer v with ⟨g, hw, heq⟩ | ⟨why, heq⟩
      · rw [heq] at h
        have hg : t.flowOf? writer = some g := by simp [flowOf?, hw, Handle.keeps?]
        simp only [event, hg, Option.elim_some, Event.emittedOn, ne_eq, ite_eq_right_iff,
          List.cons_ne_nil, imp_false, not_not] at h
        exact ⟨writer, v, rfl, h ▸ hw⟩
      · rw [heq] at h
        exact absurd rfl h
  | create writer initial => exact absurd rfl h
  | view writer new => exact absurd rfl h
  | clone source new => exact absurd rfl h
  | value source => exact absurd rfl h
  | count writer => exact absurd rfl h
  | drop name => exact absurd rfl h
  | describe source => exact absurd rfl h
  | next name => exact absurd htaken h
  | tryNext name => exact absurd htaken h
  | drain name => exact absurd htaken h
  | subscribe source new =>
      rcases step_subscribe_cases t source new with ⟨g, current, hg, -, heq⟩ | ⟨why, heq⟩
      · rw [heq] at h
        simp [event, hg, Event.emittedOn] at h
      · rw [heq] at h
        exact absurd rfl h

end Table

theorem WellFormed.step (ht : WellFormed t) (x : Step κ α) : WellFormed (t.step x).2 :=
  ht.change (Table.step_change (P := fun _ => True) t x fun _ _ => trivial)

/-- The table after a run of steps from the beginning. -/
def tableAfter (steps : List (Step κ α)) : Table κ α := ((Table.empty : Table κ α).run steps).2

theorem wellFormed_after (steps : List (Step κ α)) : WellFormed (tableAfter steps) :=
  WellFormed.empty.changes (Table.run_changes Table.empty steps)

/-- The events of steps that are taken after others. -/
def eventsSince (before after : List (Step κ α)) : List (Event α) := (tableAfter before).events after

theorem eventsSince_concat (before after : List (Step κ α)) (x : Step κ α) :
    eventsSince before (after ++ [x]) = eventsSince before after ++
      [(tableAfter (before ++ after)).event x ((tableAfter (before ++ after)).step x).1] := by
  rw [tableAfter, Table.run_append]
  exact Table.events_append (tableAfter before) after [x]

/-- Of a run in which a writer emits between `before` and `after`, this is the last emit on a flow. -/
structure LastEmit (f : Nat) (before : List (Step κ α)) (writer : κ) (v : α)
    (after : List (Step κ α)) : Prop where
  emits : (tableAfter before).handle? writer = some (.writer f)
  silent : emitted f (eventsSince (before ++ [.emit writer v]) after) = []

/-- **The registered numbers after a run.** They are those opened to the flow, all of them if nothing
    was emitted on it, and otherwise those that the last emit reached and those opened since. -/
theorem registered_after (f : Nat) (steps : List (Step κ α)) :
    (emitted f (eventsSince [] steps) = [] ∧
      (tableAfter steps).registered f = openings f (eventsSince [] steps)) ∨
    ∃ before writer v after, steps = before ++ .emit writer v :: after ∧
      LastEmit f before writer v after ∧ (tableAfter steps).registered f =
        (tableAfter before).reached f ++
          openings f (eventsSince (before ++ [.emit writer v]) after) := by
  induction steps using List.reverseRecOn with
  | nil => exact Or.inl ⟨rfl, rfl⟩
  | append_singleton steps x ih =>
      have hchange := Table.step_change (P := fun _ => True) (tableAfter steps) x fun _ _ => trivial
      obtain ⟨hgrows, hcut⟩ := hchange.registered (wellFormed_after steps) f
      have htable : tableAfter (steps ++ [x]) = ((tableAfter steps).step x).2 :=
        Table.run_append Table.empty steps [x]
      by_cases hsilent : ((tableAfter steps).event x ((tableAfter steps).step x).1).emittedOn f = []
      · -- the last emit is the same as before, or there is none yet
        rw [htable, hgrows hsilent]
        rcases ih with ⟨hnone, hall⟩ | ⟨before, writer, v, after, rfl, hlast, hsince⟩
        · left
          rw [eventsSince_concat, List.nil_append, emitted_append, openings_append, emitted_single,
            openings_single, hnone, hall, hsilent]
          exact ⟨rfl, rfl⟩
        · right
          refine ⟨before, writer, v, after ++ [x], by simp, ⟨hlast.emits, ?_⟩, ?_⟩
          · rw [eventsSince_concat, List.append_assoc, List.singleton_append, emitted_append,
              emitted_single, hlast.silent, hsilent]
            rfl
          · rw [eventsSince_concat, List.append_assoc, List.singleton_append, openings_append,
              openings_single, hsince, List.append_assoc]
      · obtain ⟨writer, v, rfl, hw⟩ := Table.emit_of_emittedOn hsilent
        refine Or.inr ⟨steps, writer, v, [], rfl, ⟨hw, rfl⟩, ?_⟩
        rw [htable, hcut hsilent]
        exact (List.append_nil _).symm

/-! ## The count -/

namespace Table

/-- Asking for the number of subscriptions answers how many are registered. -/
theorem step_count (ht : WellFormed t) {writer : κ} {f : Nat}
    (hw : t.handle? writer = some (.writer f)) :
    t.step (.count writer) = (.count (t.registered f).length, t) := by
  have hf : f < t.flows.length := ht.flow_lt hw
  simp [step, withHandle, hw, registered, List.getElem?_eq_getElem hf]

theorem step_emit {writer : κ} {f : Nat} (hw : t.handle? writer = some (.writer f)) (v : α) :
    (t.step (.emit writer v)).2 = t.emit f v := by
  simp [step, withHandle, hw]

/-- Asking a subscription leaves the flows and the writers alone. -/
theorem withSubscription_frame (t : Table κ α) (name : κ)
    (act : Bool → Subscription α → Answer α × Subscription α) {writer : κ} {f : Nat}
    (hw : t.handle? writer = some (.writer f)) :
    (t.withSubscription name act).2.flows = t.flows ∧
      (t.withSubscription name act).2.handle? writer = some (.writer f) := by
  unfold withSubscription withHandle
  cases hname : t.handle? name with
  | none => exact ⟨rfl, hw⟩
  | some h =>
      cases h with
      | writer g => exact ⟨rfl, hw⟩
      | view g => exact ⟨rfl, hw⟩
      | subscription n g s =>
          refine ⟨rfl, ?_⟩
          have hne : writer ≠ name := by
            rintro rfl
            cases hw.symm.trans hname
          show (t.bind name (.subscription n g _)).handle? writer = _
          rw [handle?_bind, if_neg hne, hw]

end Table

/-- A step that asks a subscription for values. -/
inductive Step.Asks : Step κ α → Prop
  | next (subscription : κ) : Asks (.next subscription)
  | tryNext (subscription : κ) : Asks (.tryNext subscription)
  | drain (subscription : κ) : Asks (.drain subscription)

theorem Step.Asks.frame {x : Step κ α} (hx : x.Asks) {writer : κ} {f : Nat}
    (hw : t.handle? writer = some (.writer f)) :
    (t.step x).2.flows = t.flows ∧ (t.step x).2.handle? writer = some (.writer f) := by
  cases hx with
  | next name => exact t.withSubscription_frame name _ hw
  | tryNext name => exact t.withSubscription_frame name _ hw
  | drain name => exact t.withSubscription_frame name _ hw

/-- **The registry, exactly.** After any run of steps, a live subscription is registered once with
    its own flow, and with no other. The number that a writer tells is the number of subscriptions
    live at the last emit on its flow and of those opened since, or of all that were ever opened if
    nothing was emitted. It is never below the number of live ones, right after an emit it is equal to
    it, and asking subscriptions for values does not change it. -/
theorem registry_exact (steps : List (Step κ α)) :
    let t := tableAfter steps
    (∀ name n f s, t.handle? name = some (.subscription n f s) →
      (t.registered f).count n = 1 ∧ ∀ g, g ≠ f → n ∉ t.registered g) ∧
    ∀ writer f, t.handle? writer = some (.writer f) →
      ∃ count, t.step (.count writer) = (.count count, t) ∧
        ((emitted f (eventsSince [] steps) = [] ∧
            count = (openings f (eventsSince [] steps)).length) ∨
          ∃ before w v after, steps = before ++ .emit w v :: after ∧ LastEmit f before w v after ∧
            count = ((tableAfter before).liveOn f).length
              + (openings f (eventsSince (before ++ [.emit w v]) after)).length) ∧
        (t.liveOn f).length ≤ count ∧
        (∀ v, let t' := (t.step (.emit writer v)).2
          t'.step (.count writer) = (.count (t'.liveOn f).length, t')) ∧
        ∀ x : Step κ α, x.Asks → ((t.step x).2.step (.count writer)).1 = .count count := by
  intro t
  have ht : WellFormed t := wellFormed_after steps
  refine ⟨?_, ?_⟩
  · intro name n f s hname
    have hmem (g : Nat) : n ∈ t.registered g ↔ g = f := ht.mem_registered_iff hname
    exact ⟨List.count_eq_one_of_mem (ht.nodup_registered f) ((hmem f).mpr rfl),
      fun g hne hn => hne ((hmem g).mp hn)⟩
  · intro writer f hw
    refine ⟨(t.registered f).length, Table.step_count ht hw, ?_, ?_, ?_, ?_⟩
    · rcases registered_after f steps with ⟨hnone, hall⟩ | ⟨before, w, v, after, hsteps, hlast, hsince⟩
      · exact Or.inl ⟨hnone, congrArg List.length hall⟩
      · refine Or.inr ⟨before, w, v, after, hsteps, hlast, ?_⟩
        rw [hsince, List.length_append, ((wellFormed_after before).reached_perm f).length_eq]
    · exact (List.subperm_of_subset (ht.nodup_liveOn f) (ht.liveOn_subset f)).length_le
    · intro v t'
      have ht' : WellFormed t' := ht.step (.emit writer v)
      have hemit : t' = t.emit f v := Table.step_emit hw v
      have hw' : t'.handle? writer = some (.writer f) := by
        rw [hemit, Table.handle?_emit, hw]
        rfl
      have hreg : t'.registered f = t.reached f :=
        hemit ▸ Table.registered_emit_self (ht.flow_lt hw) v
      have hlive : t'.liveOn f = t.liveOn f := hemit ▸ t.liveOn_emit f v f
      rw [Table.step_count ht' hw', hreg, (ht.reached_perm f).length_eq, hlive]
    · intro x hx
      obtain ⟨hflows, hw'⟩ := hx.frame hw
      have hreg : (t.step x).2.registered f = t.registered f := by
        rw [Table.registered, hflows, Table.registered]
      rw [Table.step_count (ht.step x) hw', hreg]

/-- A run with one subscription opened before an emit and dropped after it, and one opened since. -/
def lateDrop : List (Step Nat Nat) :=
  [.create 0 3, .subscribe 0 1, .emit 0 5, .subscribe 0 2, .drop 1]

/-- The dropped subscription is counted until the next emit. -/
theorem registry_exact_late_drop :
    let t := tableAfter lateDrop
    t.handle? 2 = some (.subscription 1 0 (.opened 5)) ∧ (t.registered 0).count 1 = 1 ∧
      t.step (.count 0) = (.count 2, t) ∧ (t.liveOn 0).length = 1 ∧
      ((t.step (.emit 0 6)).2.step (.count 0)).1 = .count 1 ∧
      ((t.step (.drain 2)).2.step (.count 0)).1 = .count 2 := by
  intro t
  have hsub : t.handle? 2 = some (.subscription 1 0 (.opened 5)) := by decide
  have hw : t.handle? 0 = some (.writer 0) := by decide
  obtain ⟨hregistered, hcounts⟩ := registry_exact lateDrop
  obtain ⟨count, hcount, -, -, hemit, hasks⟩ := hcounts 0 0 hw
  have htwo : t.step (.count 0) = (.count 2, t) := by decide
  have hcount2 : count = 2 := by
    rw [show (tableAfter lateDrop).step (.count 0) = _ from htwo] at hcount
    injection hcount with hcount
    injection hcount with hcount
    exact hcount.symm
  have hlive : ((t.step (.emit 0 6)).2.liveOn 0).length = 1 := by decide
  refine ⟨hsub, (hregistered 2 1 0 _ hsub).1, htwo, by decide, ?_, ?_⟩
  · exact (congrArg Prod.fst (hemit 6)).trans (congrArg Answer.count hlive)
  · exact (hasks _ (.drain 2)).trans (congrArg Answer.count hcount2)

end ObservableStore.Flow
