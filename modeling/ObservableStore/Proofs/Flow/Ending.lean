import ObservableStore.Proofs.Flow.Delivery

/-!
# `Proofs.Flow.Ending` — a subscription ends exactly when it must

**The end.** A subscription reports the end if and only if it has returned the value current at its
opening and all that was emitted on its flow since, and nobody holds the flow any more: the writer
and every view of it, clones of views included, are dropped or replaced. With a holder left it
reports that it is waiting. Once the end is reported, it is reported for ever
(`ending_exact`).

Both conditions are said by the history and not by the table. What was returned is read off the
events, as in `Proofs.Flow.Delivery` (`Exhausted`). Who holds a flow is counted by `Holdings`, which
knows only the steps and that they were answered: it sees names come to hold a flow and lose it, and
never looks at a handle.

Shape of the argument. `Holdings.Agree` says that this account is right about a table, and every step
keeps it (`Holdings.Agree.step`). That the end stays is an invariant of its own, `Over`: a flow that
nobody holds gets no new holder, because every holder comes from another one.
-/

namespace ObservableStore.Flow

variable {κ α : Type} [DecidableEq κ] {P : κ → Prop} {t t' : Table κ α}

/-! ## Who holds a flow, by the history -/

/-- What a history of steps tells about the flows made and the names that hold them. -/
structure Holdings (κ : Type) where
  /-- How many flows were made; the next one gets this number. -/
  made : Nat
  /-- The flow that a name holds, be it with the writer or with a view. -/
  held : κ → Option Nat

namespace Holdings

/-- Before all steps. -/
def start : Holdings κ := ⟨0, fun _ => none⟩

/-- A name comes to hold a flow, or none, in place of what it held. -/
def put (h : Holdings κ) (name : κ) (flow : Option Nat) : Holdings κ :=
  { h with held := fun k => if k = name then flow else h.held k }

/-- What a step with its answer changes. A name that comes to stand for a subscription holds no flow
    any more, and a view holds the flow of what it was made from. -/
def step (h : Holdings κ) : Step κ α → Answer α → Holdings κ
  | .create writer _, .done => { h.put writer (some h.made) with made := h.made + 1 }
  | .view source new, .done => h.put new (h.held source)
  | .clone source new, .done => h.put new (h.held source)
  | .subscribe _ new, .done => h.put new none
  | .drop name, _ => h.put name none
  | _, _ => h

/-- What the steps of a history with their answers change, one after the other. -/
def after (h : Holdings κ) (log : List (Step κ α × Answer α)) : Holdings κ :=
  log.foldl (fun h entry => h.step entry.1 entry.2) h

/-- Whether some name holds a flow. -/
def Holds (h : Holdings κ) (f : Nat) : Prop := ∃ k, h.held k = some f

end Holdings

/-! ### The flow of a name, operation by operation -/

namespace Table

@[simp] theorem flowOf?_bind (t : Table κ α) (name k : κ) (h : Handle α) :
    (t.bind name h).flowOf? k = if k = name then h.keeps? else t.flowOf? k := by
  unfold flowOf?
  rw [handle?_bind]
  split <;> rfl

@[simp] theorem flowOf?_drop (t : Table κ α) (name k : κ) :
    (t.drop name).flowOf? k = if k = name then none else t.flowOf? k := by
  unfold flowOf?
  rw [handle?_drop]
  split <;> rfl

@[simp] theorem flowOf?_create (t : Table κ α) (name k : κ) (initial : α) :
    (t.create name initial).flowOf? k = if k = name then some t.flows.length else t.flowOf? k :=
  flowOf?_bind _ name k _

@[simp] theorem flowOf?_subscribe (t : Table κ α) (f : Nat) (current : α) (name k : κ) :
    (t.subscribe f current name).flowOf? k = if k = name then none else t.flowOf? k :=
  flowOf?_bind _ name k _

@[simp] theorem flowOf?_emit (t : Table κ α) (f : Nat) (v : α) (k : κ) :
    (t.emit f v).flowOf? k = t.flowOf? k := by
  unfold flowOf?
  rw [handle?_emit]
  cases t.handle? k with
  | none => rfl
  | some h => cases h <;> rfl

theorem flowOf?_of_writer {k : κ} {f : Nat} (h : t.handle? k = some (.writer f)) :
    t.flowOf? k = some f := by
  rw [flowOf?, h]; rfl

theorem flowOf?_of_view {k : κ} {f : Nat} (h : t.handle? k = some (.view f)) :
    t.flowOf? k = some f := by
  rw [flowOf?, h]; rfl

/-- A flow is alive when some name keeps it alive. -/
theorem isAlive_iff (ht : t.names.Nodup) {f : Nat} :
    t.isAlive f = true ↔ ∃ k, t.flowOf? k = some f := by
  unfold isAlive flowOf?
  rw [List.any_eq_true]
  constructor
  · rintro ⟨⟨k, h⟩, hm, hkeeps⟩
    refine ⟨k, ?_⟩
    rw [(mem_handles_iff ht).mp hm]
    exact eq_of_beq hkeeps
  · rintro ⟨k, hk⟩
    obtain ⟨h, hh, hkeeps⟩ := Option.bind_eq_some_iff.mp hk
    exact ⟨(k, h), (mem_handles_iff ht).mpr hh, beq_iff_eq.mpr hkeeps⟩

end Table

/-! ### The account is right -/

namespace Holdings

/-- An account of the holders that is right about a table. -/
structure Agree (h : Holdings κ) (t : Table κ α) : Prop where
  made : h.made = t.flows.length
  held : ∀ k, h.held k = t.flowOf? k

theorem Agree.start : Agree (start : Holdings κ) (Table.empty : Table κ α) where
  made := rfl
  held := by intro k; rfl

/-- A name that comes to stand for a handle holds the flow that the handle keeps alive. -/
theorem Agree.put {h : Holdings κ} (ha : h.Agree t) (name : κ) (g : Handle α) {flow : Option Nat}
    (hg : flow = g.keeps?) : (h.put name flow).Agree (t.bind name g) where
  made := ha.made
  held := by
    intro k
    rw [Table.flowOf?_bind, hg]
    show (if k = name then g.keeps? else h.held k) = _
    rw [ha.held k]

/-- Asking a subscription makes no holder and loses none. -/
theorem Agree.withSubscription {h : Holdings κ} (ha : h.Agree t) (name : κ)
    (act : Bool → Subscription α → Answer α × Subscription α) :
    h.Agree (t.withSubscription name act).2 := by
  unfold Table.withSubscription Table.withHandle
  cases hh : t.handle? name with
  | none => exact ha
  | some g =>
      cases g with
      | writer f => exact ha
      | view f => exact ha
      | subscription n f s =>
          refine ⟨ha.made, fun k => ?_⟩
          show h.held k = (t.bind name (.subscription n f _)).flowOf? k
          rw [Table.flowOf?_bind, ha.held k]
          by_cases hk : k = name
          · rw [if_pos hk, hk, Table.flowOf?, hh]; rfl
          · rw [if_neg hk]

/-- **One step keeps the account right.** -/
theorem Agree.step {h : Holdings κ} (ha : h.Agree t) (x : Step κ α) :
    (h.step x (t.step x).1).Agree (t.step x).2 := by
  cases x with
  | create writer initial =>
      constructor
      · show h.made + 1 = (t.flows ++ [_]).length
        rw [List.length_append, ha.made]; rfl
      · intro k
        show (if k = writer then some h.made else h.held k) = (t.create writer initial).flowOf? k
        rw [Table.flowOf?_create, ha.made, ha.held k]
  | emit writer v =>
      rcases Table.step_emit_cases t writer v with ⟨f, -, heq⟩ | ⟨why, heq⟩
      · rw [heq]
        constructor
        · show h.made = (t.flows.set f _).length
          rw [List.length_set, ha.made]
        · intro k
          show h.held k = (t.emit f v).flowOf? k
          rw [Table.flowOf?_emit, ha.held k]
      · rw [heq]
        exact ha
  | view writer new =>
      rcases Table.step_view_cases t writer new with ⟨f, hh, heq⟩ | ⟨why, heq⟩
      · rw [heq]
        exact ha.put new (.view f) ((ha.held writer).trans (Table.flowOf?_of_writer hh))
      · rw [heq]
        exact ha
  | clone source new =>
      rcases Table.step_clone_cases t source new with ⟨f, hh, heq⟩ | ⟨why, heq⟩
      · rw [heq]
        exact ha.put new (.view f) ((ha.held source).trans (Table.flowOf?_of_view hh))
      · rw [heq]
        exact ha
  | subscribe source new =>
      rcases Table.step_subscribe_cases t source new with ⟨f, current, -, -, heq⟩ | ⟨why, heq⟩
      · rw [heq]
        constructor
        · show h.made = (t.flows.modify f _).length
          rw [List.length_modify, ha.made]
        · intro k
          show (if k = new then none else h.held k) = (t.subscribe f current new).flowOf? k
          rw [Table.flowOf?_subscribe, ha.held k]
      · rw [heq]
        exact ha
  | drop name =>
      constructor
      · exact ha.made
      · intro k
        show (if k = name then none else h.held k) = (t.drop name).flowOf? k
        rw [Table.flowOf?_drop, ha.held k]
  | next name => exact ha.withSubscription name _
  | tryNext name => exact ha.withSubscription name _
  | drain name => exact ha.withSubscription name _
  | value source =>
      rw [Table.step_value_table]
      exact ha
  | count writer =>
      rw [Table.step_count_table]
      exact ha
  | describe source =>
      rw [Table.step_describe_table]
      exact ha

/-- **A whole run keeps the account right.** -/
theorem Agree.run {h : Holdings κ} (ha : h.Agree t) (steps : List (Step κ α)) :
    (h.after (steps.zip (t.run steps).1)).Agree (t.run steps).2 := by
  induction steps generalizing h t with
  | nil => exact ha
  | cons x rest ih => exact ih (ha.step x)

end Holdings

/-! ## Asking a subscription -/

/-- Asking returns the first value held; with none, it tells whether more may come. -/
theorem Subscription.poll_eq (alive : Bool) (s : Subscription α) :
    (s.poll alive).1 =
      match s.held with
      | v :: _ => .value v
      | [] => if alive then .pending else .ended := by
  obtain ⟨pending, queue⟩ := s
  cases pending with
  | some v => rfl
  | none => cases queue <;> rfl

theorem Subscription.poll_ended_iff {alive : Bool} {s : Subscription α} :
    (s.poll alive).1 = .ended ↔ s.held = [] ∧ alive = false := by
  rw [Subscription.poll_eq]
  cases s.held <;> cases alive <;> simp

theorem Subscription.poll_pending_iff {alive : Bool} {s : Subscription α} :
    (s.poll alive).1 = .pending ↔ s.held = [] ∧ alive = true := by
  rw [Subscription.poll_eq]
  cases s.held <;> cases alive <;> simp

namespace Table

theorem step_next {name : κ} {n f : Nat} {s : Subscription α}
    (hname : t.handle? name = some (.subscription n f s)) :
    t.step (.next name) = (.polled (s.poll (t.isAlive f)).1,
      t.bind name (.subscription n f (s.poll (t.isAlive f)).2)) := by
  simp [step, withSubscription, withHandle, hname]

theorem step_drain {name : κ} {n f : Nat} {s : Subscription α}
    (hname : t.handle? name = some (.subscription n f s)) :
    t.step (.drain name) = (.drained s.held (if t.isAlive f then .pending else .ended),
      t.bind name (.subscription n f ⟨none, []⟩)) := by
  simp [step, withSubscription, withHandle, hname, Subscription.takeAll, Subscription.poll,
    Subscription.take]

end Table

/-- The event in which a subscription has returned the value current at its opening and everything
    emitted on its flow since: its pending value and all that was queued for it. -/
def Exhausted (es : List (Event α)) (n f : Nat) : Prop :=
  ∃ before after v, es = before ++ .opened n f :: after ∧ (published f before).getLast? = some v ∧
    taken n after = v :: emitted f after

/-- A subscription has returned everything when it holds nothing. -/
theorem Delivered.exhausted_iff {es : List (Event α)} (hd : Delivered es t)
    {name : κ} {n f : Nat} {s : Subscription α}
    (hname : t.handle? name = some (.subscription n f s)) : Exhausted es n f ↔ s.held = [] := by
  constructor
  · rintro ⟨before, after, v, hes, hv, htaken⟩
    obtain ⟨-, v', hv', hdeliv⟩ := hd.exact hes hname
    obtain rfl : v = v' := Option.some.inj (hv.symm.trans hv')
    rw [htaken] at hdeliv
    exact List.append_right_eq_self.mp hdeliv
  · intro hheld
    obtain ⟨before, after, hes⟩ := List.append_of_mem (hd.was_opened hname)
    obtain ⟨-, v, hv, hdeliv⟩ := hd.exact hes hname
    rw [hheld, List.append_nil] at hdeliv
    exact ⟨before, after, v, hes, hv, hdeliv⟩

/-- Returning all that is held is returning everything. -/
theorem Delivered.exhausted_drained {es : List (Event α)} (hd : Delivered es t) {name : κ}
    {n f : Nat} {s : Subscription α} (hname : t.handle? name = some (.subscription n f s)) :
    Exhausted (es ++ [.taken n s.held]) n f := by
  obtain ⟨before, after, hes⟩ := List.append_of_mem (hd.was_opened hname)
  obtain ⟨-, v, hv, hdeliv⟩ := hd.exact hes hname
  refine ⟨before, after ++ [.taken n s.held], v, by simp [hes], hv, ?_⟩
  rw [taken_append, emitted_append, taken_single, emitted_single]
  simpa [Event.takenBy, Event.emittedOn] using hdeliv

/-! ## The end stays -/

/-- A holder was one before, got the flow from another one, or made it. -/
theorem Table.Change.flowOf?_cases {e : Event α} (c : Table.Change P t e t') {k : κ} {f : Nat}
    (hk : t'.flowOf? k = some f) : (∃ k', t.flowOf? k' = some f) ∨ f = t.flows.length := by
  cases c with
  | silent => exact Or.inl ⟨k, hk⟩
  | made hP initial =>
      rw [Table.flowOf?_create] at hk
      split at hk
      · exact Or.inr (Option.some.inj hk).symm
      · exact Or.inl ⟨k, hk⟩
  | emitted hP v hw =>
      rw [Table.flowOf?_emit] at hk
      exact Or.inl ⟨k, hk⟩
  | @viewed source new g hP hg =>
      rw [Table.flowOf?_bind] at hk
      split at hk
      · exact Or.inl ⟨source, hg.trans hk⟩
      · exact Or.inl ⟨k, hk⟩
  | opened hP hg hv =>
      rw [Table.flowOf?_subscribe] at hk
      split at hk
      · cases hk
      · exact Or.inl ⟨k, hk⟩
  | dropped hP =>
      rw [Table.flowOf?_drop] at hk
      split at hk
      · cases hk
      · exact Or.inl ⟨k, hk⟩
  | taken hP hname hheld =>
      rw [Table.flowOf?_bind] at hk
      split at hk
      · cases hk
      · exact Or.inl ⟨k, hk⟩

/-- Nothing is emitted on a flow that nobody holds. -/
theorem Table.Change.emittedOn_eq_nil {e : Event α} (c : Table.Change P t e t') {f : Nat}
    (hf : ∀ k, t.flowOf? k ≠ some f) : e.emittedOn f = [] := by
  cases e with
  | emitted g v =>
      obtain ⟨w, -, hw⟩ := c.emitted_writer
      have hgf : g ≠ f := by
        rintro rfl
        exact hf w (Table.flowOf?_of_writer hw)
      rw [Event.emittedOn, if_neg hgf]
  | silent => rfl
  | made g v => rfl
  | opened m g => rfl
  | taken m vs => rfl

/-- The flow of a subscription is over for it: nobody holds the flow, and nothing is held for the
    subscription. -/
structure Over (n f : Nat) (t : Table κ α) : Prop where
  was_made : f < t.flows.length
  was_opened : n < t.opened
  unheld : ∀ k, t.flowOf? k ≠ some f
  drained : ∀ {k g s}, t.handle? k = some (.subscription n g s) → g = f ∧ s.held = []

/-- **What is over stays over**: no change gives the flow a holder or the subscription a value. -/
theorem Over.change {n f : Nat} (ho : Over n f t) (ht : WellFormed t) {e : Event α}
    (c : Table.Change P t e t') : Over n f t' where
  was_made := by
    have hmade := ho.was_made
    rcases c.flows_length ht with ⟨hlen, -⟩ | ⟨initial, hlen, -⟩ <;> omega
  was_opened := Nat.lt_of_lt_of_le ho.was_opened c.opened_numbers.1
  unheld := by
    intro k hk
    rcases c.flowOf?_cases hk with ⟨k', hk'⟩ | hnew
    · exact ho.unheld k' hk'
    · have hmade := ho.was_made
      omega
  drained := by
    intro k g s' hk
    rcases c.subscription ht hk with ⟨-, hnew, -⟩ | ⟨s, hs, hheld⟩
    · -- a subscription opened now has another number
      have hopened := ho.was_opened
      omega
    · obtain ⟨rfl, hnil⟩ := ho.drained hs
      rw [hnil, c.emittedOn_eq_nil ho.unheld] at hheld
      exact ⟨rfl, (List.append_eq_nil_iff.mp hheld).2⟩

theorem Over.changes {n f : Nat} (ho : Over n f t) (ht : WellFormed t) {es : List (Event α)}
    (c : Table.Changes P t es t') : Over n f t' := by
  induction c with
  | refl => exact ho
  | tail h c ih => exact ih.change (ht.changes h) c

/-- A subscription that is over reports the end, and there is nothing to drain. -/
theorem Over.reports {n f : Nat} (ho : Over n f t) (ht : WellFormed t) {k : κ} {g : Nat}
    {s : Subscription α} (hk : t.handle? k = some (.subscription n g s)) :
    (t.step (.next k)).1 = .polled .ended ∧ (t.step (.drain k)).1 = .drained [] .ended := by
  obtain ⟨rfl, hheld⟩ := ho.drained hk
  have hdead : t.isAlive g = false := by
    rw [← Bool.not_eq_true, Table.isAlive_iff ht.names_nodup]
    rintro ⟨k', hk'⟩
    exact ho.unheld k' hk'
  constructor
  · rw [Table.step_next hk, Subscription.poll_eq, hheld, hdead]; rfl
  · rw [Table.step_drain hk, hheld, hdead]; rfl

/-! ## The end -/

/-- Whether an answer reports the end. -/
def Answer.ends : Answer α → Bool
  | .polled .ended => true
  | .drained _ .ended => true
  | _ => false

/-- With nobody left to hold its flow, a subscription that has given away all it held is over. -/
theorem WellFormed.over_of_bind (ht : WellFormed t) {name : κ} {n f : Nat} {s s' : Subscription α}
    (hname : t.handle? name = some (.subscription n f s)) (hdead : t.isAlive f = false)
    (hheld : s'.held = []) : Over n f (t.bind name (.subscription n f s')) where
  was_made := ht.flow_lt hname
  was_opened := ht.number_lt hname
  unheld := by
    intro k hk
    rw [Table.flowOf?_bind] at hk
    split at hk
    · cases hk
    · exact absurd ((Table.isAlive_iff ht.names_nodup).mpr ⟨k, hk⟩) (by simp [hdead])
  drained := by
    intro k g u hk
    rcases Table.handle?_bind_cases hk with ⟨-, hsame⟩ | ⟨hne, hold⟩
    · cases hsame
      exact ⟨rfl, hheld⟩
    · exact absurd (ht.number_inj hold hname) hne

/-- The report of the end is the beginning of it. -/
theorem WellFormed.over_of_ends (ht : WellFormed t) {name : κ} {n f : Nat} {s : Subscription α}
    (hname : t.handle? name = some (.subscription n f s)) {ask : Step κ α}
    (hask : ask = .next name ∨ ask = .drain name) (hends : (t.step ask).1.ends = true) :
    Over n f (t.step ask).2 := by
  rcases hask with rfl | rfl
  · rw [Table.step_next hname] at hends ⊢
    have hended : (s.poll (t.isAlive f)).1 = .ended := by
      cases hp : (s.poll (t.isAlive f)).1 <;> simp_all [Answer.ends]
    obtain ⟨hheld, hdead⟩ := Subscription.poll_ended_iff.mp hended
    -- a poll of a subscription that holds nothing leaves it holding nothing
    have hrest := Table.held_poll (t.isAlive f) s
    rw [hheld, hended] at hrest
    exact ht.over_of_bind hname hdead hrest.symm
  · rw [Table.step_drain hname] at hends ⊢
    apply ht.over_of_bind hname _ rfl
    cases ha : t.isAlive f with
    | false => rfl
    | true => simp [ha, Answer.ends] at hends

/-- **The end, exactly.** After any run of steps, a live subscription that is asked reports the end
    if and only if it has returned everything and nobody holds its flow any more, and reports that it
    is waiting if and only if it has returned everything and somebody does. Draining returns what is
    left and tells which of the two it is. Once the end is reported, the subscription reports it and
    has nothing to drain after all further steps, whatever name it goes by. -/
theorem ending_exact (steps : List (Step κ α)) :
    let es := (Table.empty : Table κ α).events steps
    let t := ((Table.empty : Table κ α).run steps).2
    let holders := Holdings.start.after (steps.zip ((Table.empty : Table κ α).run steps).1)
    ∀ name n f s, t.handle? name = some (.subscription n f s) →
      ((t.step (.next name)).1 = .polled .ended ↔ Exhausted es n f ∧ ¬ holders.Holds f) ∧
      ((t.step (.next name)).1 = .polled .pending ↔ Exhausted es n f ∧ holders.Holds f) ∧
      (∃ left after, (t.step (.drain name)).1 = .drained left after ∧
        Exhausted (es ++ [.taken n left]) n f ∧
        (after = .ended ↔ ¬ holders.Holds f) ∧ (after = .pending ↔ holders.Holds f)) ∧
      ∀ ask, ask = .next name ∨ ask = .drain name → (t.step ask).1.ends = true →
        ∀ more k g u, ((t.step ask).2.run more).2.handle? k = some (.subscription n g u) →
          (((t.step ask).2.run more).2.step (.next k)).1 = .polled .ended ∧
          (((t.step ask).2.run more).2.step (.drain k)).1 = .drained [] .ended := by
  intro es t holders name n f s hname
  have hrun := Table.run_changes (Table.empty : Table κ α) steps
  have hd : Delivered es t := Delivered.changes hrun
  have ht : WellFormed t := WellFormed.empty.changes hrun
  have hagree : holders.Agree t := Holdings.Agree.start.run steps
  have halive : t.isAlive f = true ↔ holders.Holds f := by
    rw [Table.isAlive_iff ht.names_nodup]
    exact exists_congr fun k => by rw [hagree.held k]
  rw [hd.exhausted_iff hname, Table.step_next hname, Table.step_drain hname, ← halive]
  refine ⟨?_, ?_, ?_, ?_⟩
  · rw [Answer.polled.injEq, Subscription.poll_ended_iff, Bool.not_eq_true]
  · rw [Answer.polled.injEq, Subscription.poll_pending_iff]
  · refine ⟨s.held, _, rfl, hd.exhausted_drained hname, ?_, ?_⟩
    · cases t.isAlive f <;> simp
    · cases t.isAlive f <;> simp
  · rintro ask hask hends more k g u hk
    have hrest := Table.run_changes (t.step ask).2 more
    have hstep := Table.step_change t ask fun _ _ => trivial
    have ho : Over n f (t.step ask).2 := ht.over_of_ends hname hask hends
    exact (ho.changes (ht.change hstep) hrest).reports ((ht.change hstep).changes hrest) hk

/-- A subscription through a view of a view, which outlives the writer and the view it was made from:
    it waits while the clone is left and ends when that one's name comes to stand for a subscription
    of another flow. -/
theorem ending_exact_outlived_by_clone :
    let early : List (Step Nat Nat) :=
      [.create 0 7, .view 0 1, .clone 1 2, .subscribe 2 3, .emit 0 8, .drop 0, .next 3,
        .create 1 5, .next 3]
    let late := early ++ [.subscribe 1 2]
    let holders := fun steps : List (Step Nat Nat) =>
      Holdings.start.after (steps.zip ((Table.empty : Table Nat Nat).run steps).1)
    Exhausted ((Table.empty : Table Nat Nat).events early) 0 0 ∧ (holders early).Holds 0 ∧
    Exhausted ((Table.empty : Table Nat Nat).events late) 0 0 ∧ ¬ (holders late).Holds 0 ∧
    (((((Table.empty : Table Nat Nat).run late).2.step (.next 3)).2.run [.emit 1 6]).2.step
      (.next 3)).1 = .polled .ended := by
  intro early late holders
  have hpending := ((ending_exact early 3 0 0 ⟨none, []⟩ (by decide)).2.1).mp (by decide)
  have hended := ending_exact late 3 0 0 ⟨none, []⟩ (by decide)
  have hnow := hended.1.mp (by decide)
  have hlater := hended.2.2.2 (.next 3) (Or.inl rfl) (by decide) [.emit 1 6] 3 0 ⟨none, []⟩
    (by decide)
  exact ⟨hpending.1, hpending.2, hnow.1, hnow.2, hlater.1⟩

end ObservableStore.Flow
