import ObservableStore.Proofs.Flow.Table

/-!
# `Proofs.Flow.History` — what a run of flow steps does, event by event

A run of steps is read twice. From outside, every step with its answer is an `Event`: a flow was
made, a value was emitted, a subscription was opened or gave values away, or nothing of the kind. From
inside, every step changes the table in one of seven ways (`Change`). `step_change` ties the two
together: it is the only place where `Table.step` is opened, and every invariant of tables is proved
by cases on `Change` instead. A change also says which names it may touch, for tables whose users
share one table and not its names.

The events of a flow are the second side of the delivery theorems. They are read off steps, names and
answers only: no event looks into a subscription or into the current value of a flow.
-/

namespace ObservableStore.Flow

variable {κ α : Type}

/-! ## Events -/

/-- What a step with its answer means for flows and subscriptions, by their numbers. -/
inductive Event (α : Type) where
  | silent
  /-- A flow was made. -/
  | made (flow : Nat) (initial : α)
  | emitted (flow : Nat) (v : α)
  /-- A subscription to a flow was opened. -/
  | opened (number flow : Nat)
  /-- A subscription was asked and returned these values. -/
  | taken (number : Nat) (values : List α)
deriving DecidableEq, Repr

namespace Event

/-- The value that a flow got at its making or by an emit. -/
def publishedOn (f : Nat) : Event α → List α
  | .made g v => if g = f then [v] else []
  | .emitted g v => if g = f then [v] else []
  | _ => []

/-- The value emitted on a flow. -/
def emittedOn (f : Nat) : Event α → List α
  | .emitted g v => if g = f then [v] else []
  | _ => []

/-- The values that a subscription returned. -/
def takenBy (n : Nat) : Event α → List α
  | .taken m vs => if m = n then vs else []
  | _ => []

end Event

/-- The values published on a flow, its initial one first. -/
def published (f : Nat) (es : List (Event α)) : List α := es.flatMap (Event.publishedOn f)

/-- The values emitted on a flow. -/
def emitted (f : Nat) (es : List (Event α)) : List α := es.flatMap (Event.emittedOn f)

/-- The values that a subscription returned. -/
def taken (n : Nat) (es : List (Event α)) : List α := es.flatMap (Event.takenBy n)

/-- The values in a polled answer. -/
def Polled.values : Polled α → List α
  | .value v => [v]
  | _ => []

/-- The values that an answer takes from a subscription. -/
def Answer.values : Answer α → List α
  | .polled p => p.values
  | .taken v => v.toList
  | .drained vs after => vs ++ after.values
  | _ => []

namespace Table

variable [DecidableEq κ]

/-- The event of a step with its answer; the table says what the names of the step stood for. -/
def event (t : Table κ α) : Step κ α → Answer α → Event α
  | .create _ initial, .done => .made t.flows.length initial
  | .emit writer v, .done => (t.flowOf? writer).elim .silent (.emitted · v)
  | .subscribe source _, .done => (t.flowOf? source).elim .silent (.opened t.opened ·)
  | .next name, a => (t.numberOf? name).elim .silent (.taken · a.values)
  | .tryNext name, a => (t.numberOf? name).elim .silent (.taken · a.values)
  | .drain name, a => (t.numberOf? name).elim .silent (.taken · a.values)
  | _, _ => .silent

/-- The events of a run. -/
def events (t : Table κ α) : List (Step κ α) → List (Event α)
  | [] => []
  | x :: rest => t.event x (t.step x).1 :: (t.step x).2.events rest

end Table

/-- The names that a step mentions. -/
def Step.names : Step κ α → List κ
  | .create writer _ => [writer]
  | .emit writer _ => [writer]
  | .view writer new => [writer, new]
  | .clone source new => [source, new]
  | .subscribe source new => [source, new]
  | .value source => [source]
  | .count writer => [writer]
  | .drop name => [name]
  | .next name => [name]
  | .tryNext name => [name]
  | .drain name => [name]
  | .describe source => [source]

namespace Table

variable [DecidableEq κ]

/-! ## Changes -/

/-- What one step can do to a table, with its event, when it mentions only names with `P`. -/
inductive Change (P : κ → Prop) (t : Table κ α) : Event α → Table κ α → Prop where
  | silent : Change P t .silent t
  | made {name : κ} (hP : P name) (initial : α) :
      Change P t (.made t.flows.length initial) (t.create name initial)
  | emitted {writer : κ} {f : Nat} (hP : P writer) (v : α)
      (h : t.handle? writer = some (.writer f)) : Change P t (.emitted f v) (t.emit f v)
  | viewed {source new : κ} {f : Nat} (hP : P new) (h : t.flowOf? source = some f) :
      Change P t .silent (t.bind new (.view f))
  | opened {source new : κ} {f : Nat} {current : α} (hP : P new)
      (h : t.flowOf? source = some f) (hv : t.value? f = some current) :
      Change P t (.opened t.opened f) (t.subscribe f current new)
  | dropped {name : κ} (hP : P name) : Change P t .silent (t.drop name)
  /-- What was held before are the values returned and then what is held still. -/
  | taken {name : κ} {n f : Nat} {s s' : Subscription α} {vs : List α} (hP : P name)
      (h : t.handle? name = some (.subscription n f s)) (hs : s.held = vs ++ s'.held) :
      Change P t (.taken n vs) (t.bind name (.subscription n f s'))

/-- A run of changes with its events, the first one first. -/
inductive Changes (P : κ → Prop) (t : Table κ α) : List (Event α) → Table κ α → Prop where
  | refl : Changes P t [] t
  | tail {es : List (Event α)} {e : Event α} {t' t'' : Table κ α}
      (h : Changes P t es t') (c : Change P t' e t'') : Changes P t (es ++ [e]) t''

variable {P : κ → Prop} {t t' t'' : Table κ α} {e : Event α} {es : List (Event α)}

/-- A single change is a run. -/
theorem Changes.single (c : Change P t e t') : Changes P t [e] t' := Changes.tail .refl c

/-- A run may begin with a change. -/
theorem Changes.head (c : Change P t e t') (h : Changes P t' es t'') :
    Changes P t (e :: es) t'' := by
  induction h with
  | refl => exact Changes.single c
  | tail _ c' ih => exact Changes.tail ih c'

/-! ## What a step does with a handle -/

/-- With a name a step does what it does with the handle that the name stands for, or it is refused
    and nothing is done. -/
theorem withHandle_cases {t : Table κ α} {name : κ} {act : Handle α → Option (Answer α × Table κ α)}
    {r : Answer α × Table κ α} (heq : t.withHandle name act = r) :
    (∃ h, t.handle? name = some h ∧ act h = some r) ∨ ∃ why, r = (.refused why, t) := by
  subst heq
  unfold withHandle
  cases hh : t.handle? name with
  | none => exact Or.inr ⟨_, rfl⟩
  | some h =>
      cases hact : act h with
      | none => exact Or.inr ⟨.wrongKind, by simp [hact]⟩
      | some r => exact Or.inl ⟨h, rfl, by simp [hact]⟩

theorem step_emit_cases (t : Table κ α) (writer : κ) (v : α) :
    (∃ f, t.handle? writer = some (.writer f) ∧ t.step (.emit writer v) = (.done, t.emit f v)) ∨
      ∃ why, t.step (.emit writer v) = (.refused why, t) := by
  rcases withHandle_cases (r := t.step (.emit writer v)) rfl with ⟨h, hh, hact⟩ | hrefused
  · cases h with
    | writer f => exact Or.inl ⟨f, hh, (Option.some.inj hact).symm⟩
    | view f => cases hact
    | subscription n f s => cases hact
  · exact Or.inr hrefused

theorem step_view_cases (t : Table κ α) (writer new : κ) :
    (∃ f, t.handle? writer = some (.writer f) ∧
        t.step (.view writer new) = (.done, t.bind new (.view f))) ∨
      ∃ why, t.step (.view writer new) = (.refused why, t) := by
  rcases withHandle_cases (r := t.step (.view writer new)) rfl with ⟨h, hh, hact⟩ | hrefused
  · cases h with
    | writer f => exact Or.inl ⟨f, hh, (Option.some.inj hact).symm⟩
    | view f => cases hact
    | subscription n f s => cases hact
  · exact Or.inr hrefused

theorem step_clone_cases (t : Table κ α) (source new : κ) :
    (∃ f, t.handle? source = some (.view f) ∧
        t.step (.clone source new) = (.done, t.bind new (.view f))) ∨
      ∃ why, t.step (.clone source new) = (.refused why, t) := by
  rcases withHandle_cases (r := t.step (.clone source new)) rfl with ⟨h, hh, hact⟩ | hrefused
  · cases h with
    | writer f => cases hact
    | view f => exact Or.inl ⟨f, hh, (Option.some.inj hact).symm⟩
    | subscription n f s => cases hact
  · exact Or.inr hrefused

/-- A subscription that is asked returns a front part of what it holds, or refuses. -/
theorem withSubscription_change (t : Table κ α) (name : κ)
    (act : Bool → Subscription α → Answer α × Subscription α)
    (hact : ∀ alive s, s.held = (act alive s).1.values ++ (act alive s).2.held) (hP : P name) :
    Change P t
      ((t.numberOf? name).elim .silent (.taken · (t.withSubscription name act).1.values))
      (t.withSubscription name act).2 := by
  unfold withSubscription withHandle
  cases hh : t.handle? name with
  | none => simpa [numberOf?, hh] using Change.silent
  | some h =>
      cases h with
      | writer f => simpa [numberOf?, hh, Handle.number?] using Change.silent
      | view f => simpa [numberOf?, hh, Handle.number?] using Change.silent
      | subscription n f s =>
          simpa [numberOf?, hh, Handle.number?] using
            Change.taken hP hh (hact (t.isAlive f) s)

/-- A source with a current value is a handle that keeps its flow alive; without one nothing is
    done. -/
theorem withSource_cases {t : Table κ α} {name : κ}
    {act : Bool → Nat → α → Option (Answer α × Table κ α)} {r : Answer α × Table κ α}
    (heq : t.withSource name act = r) :
    (∃ w f current, t.flowOf? name = some f ∧ t.value? f = some current ∧
        act w f current = some r) ∨ ∃ why, r = (.refused why, t) := by
  rcases withHandle_cases heq with ⟨h, hh, hact⟩ | hrefused
  · cases h with
    | writer f =>
        obtain ⟨current, hv, hact⟩ := Option.bind_eq_some_iff.mp hact
        exact Or.inl ⟨true, f, current, by simp [flowOf?, hh, Handle.keeps?], hv, hact⟩
    | view f =>
        obtain ⟨current, hv, hact⟩ := Option.bind_eq_some_iff.mp hact
        exact Or.inl ⟨false, f, current, by simp [flowOf?, hh, Handle.keeps?], hv, hact⟩
    | subscription n f s => cases hact
  · exact Or.inr hrefused

theorem step_subscribe_cases (t : Table κ α) (source new : κ) :
    (∃ f current, t.flowOf? source = some f ∧ t.value? f = some current ∧
        t.step (.subscribe source new) = (.done, t.subscribe f current new)) ∨
      ∃ why, t.step (.subscribe source new) = (.refused why, t) := by
  have hstep : t.withSource source (fun _ f current => some (.done, t.subscribe f current new)) =
      t.step (.subscribe source new) := rfl
  rcases withSource_cases hstep with ⟨w, f, current, hf, hv, hact⟩ | hrefused
  · exact Or.inl ⟨f, current, hf, hv, (Option.some.inj hact).symm⟩
  · exact Or.inr hrefused

/-- Asking for the number of subscriptions changes nothing. -/
theorem step_count_table (t : Table κ α) (writer : κ) : (t.step (.count writer)).2 = t := by
  rcases withHandle_cases (r := t.step (.count writer)) rfl with ⟨h, -, hact⟩ | ⟨why, heq⟩
  · cases h with
    | writer f =>
        obtain ⟨c, -, heq⟩ := Option.map_eq_some_iff.mp hact
        rw [← heq]
    | view f => cases hact
    | subscription n f s => cases hact
  · rw [heq]

/-- Asking for the current value changes nothing. -/
theorem step_value_table (t : Table κ α) (source : κ) : (t.step (.value source)).2 = t := by
  have hstep : t.withSource source (fun _ _ current => some (.value current, t)) =
      t.step (.value source) := rfl
  rcases withSource_cases hstep with ⟨w, f, current, -, -, hact⟩ | ⟨why, heq⟩
  · rw [← Option.some.inj hact]
  · rw [heq]

theorem step_describe_table (t : Table κ α) (source : κ) : (t.step (.describe source)).2 = t := by
  have hstep : t.withSource source (fun w _ current => some (.described w current, t)) =
      t.step (.describe source) := rfl
  rcases withSource_cases hstep with ⟨w, f, current, -, -, hact⟩ | ⟨why, heq⟩
  · rw [← Option.some.inj hact]
  · rw [heq]

/-! ## Every step is a change -/

/-- A poll returns the first value held, if there is one. -/
theorem held_poll (alive : Bool) (s : Subscription α) :
    s.held = (s.poll alive).1.values ++ (s.poll alive).2.held := by
  obtain ⟨pending, queue⟩ := s
  cases pending with
  | some v => rfl
  | none => cases queue <;> cases alive <;> rfl

/-- **A step is a change.** Every step of a table is one labelled change, and its event is read off
    the step and its answer. -/
theorem step_change (t : Table κ α) (x : Step κ α) (hP : ∀ k ∈ x.names, P k) :
    Change P t (t.event x (t.step x).1) (t.step x).2 := by
  cases x with
  | create writer initial => exact Change.made (hP writer (by simp [Step.names])) initial
  | emit writer v =>
      rcases step_emit_cases t writer v with ⟨f, hf, heq⟩ | ⟨why, heq⟩
      · rw [heq]
        simpa [event, flowOf?, hf, Handle.keeps?] using
          Change.emitted (hP writer (by simp [Step.names])) v hf
      · rw [heq]
        exact Change.silent
  | view writer new =>
      rcases step_view_cases t writer new with ⟨f, hh, heq⟩ | ⟨why, heq⟩
      · have hf : t.flowOf? writer = some f := by simp [flowOf?, hh, Handle.keeps?]
        rw [heq]
        exact Change.viewed (hP new (by simp [Step.names])) hf
      · rw [heq]
        exact Change.silent
  | clone source new =>
      rcases step_clone_cases t source new with ⟨f, hh, heq⟩ | ⟨why, heq⟩
      · have hf : t.flowOf? source = some f := by simp [flowOf?, hh, Handle.keeps?]
        rw [heq]
        exact Change.viewed (hP new (by simp [Step.names])) hf
      · rw [heq]
        exact Change.silent
  | subscribe source new =>
      rcases step_subscribe_cases t source new with ⟨f, current, hf, hv, heq⟩ | ⟨why, heq⟩
      · rw [heq]
        simpa [event, hf] using Change.opened (hP new (by simp [Step.names])) hf hv
      · rw [heq]
        exact Change.silent
  | value source =>
      rw [step_value_table]
      exact Change.silent
  | count writer =>
      rw [step_count_table]
      exact Change.silent
  | drop name => exact Change.dropped (hP name (by simp [Step.names]))
  | next name =>
      exact withSubscription_change t name _ held_poll (hP name (by simp [Step.names]))
  | tryNext name =>
      refine withSubscription_change t name _ (fun _ s => ?_) (hP name (by simp [Step.names]))
      obtain ⟨pending, queue⟩ := s
      cases pending with
      | some v => rfl
      | none => cases queue <;> rfl
  | drain name =>
      refine withSubscription_change t name _ (fun alive s => ?_) (hP name (by simp [Step.names]))
      cases alive <;> simp [Subscription.takeAll, Answer.values, Subscription.poll,
        Subscription.take, Polled.values, Subscription.held]
  | describe source =>
      rw [step_describe_table]
      exact Change.silent

/-- **A run is a run of changes**, with the same events. -/
theorem run_changes (t : Table κ α) (xs : List (Step κ α)) :
    Changes (fun _ => True) t (t.events xs) (t.run xs).2 := by
  induction xs generalizing t with
  | nil => exact Changes.refl
  | cons x rest ih => exact Changes.head (step_change t x fun _ _ => trivial) (ih (t.step x).2)

end Table

end ObservableStore.Flow
