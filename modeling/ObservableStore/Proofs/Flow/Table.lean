import ObservableStore.Flow.Step

/-!
# `Proofs.Flow.Table` — a table through its names

What a table is, seen from outside, are two functions: the handle that a name stands for (`handle?`)
and the current value of a flow (`value?`). This file says, once for each operation of
`Flow.Table`, what it does to the two, so that no later proof opens `bind`, `emit` or `subscribe`.

The list of handles also counts by itself: a flow prunes its subscriptions by `live`, which reads the
list and not the names. The two views agree when no name occurs twice (`mem_handles_iff`).
-/

namespace ObservableStore.Flow

variable {κ α : Type}

namespace Handle

/-- The flow that a handle belongs to. -/
def flow : Handle α → Nat
  | .writer f => f
  | .view f => f
  | .subscription _ f _ => f

/-- Only a subscription has a number. -/
theorem eq_subscription_of_number? {h : Handle α} {n : Nat} (hn : h.number? = some n) :
    ∃ f s, h = .subscription n f s := by
  cases h with
  | writer f => simp [number?] at hn
  | view f => simp [number?] at hn
  | subscription m f s =>
      simp only [number?, Option.some.injEq] at hn
      exact ⟨f, s, by rw [hn]⟩

/-- A handle that keeps a flow alive belongs to it. -/
theorem flow_of_keeps? {h : Handle α} {f : Nat} (hk : h.keeps? = some f) : h.flow = f := by
  cases h <;> simp_all [keeps?, flow]

@[simp] theorem flow_receive (registered : List Nat) (v : α) (h : Handle α) :
    (h.receive registered v).flow = h.flow := by
  cases h <;> rfl

/-- What receives a value and is a writer was one before. -/
theorem eq_writer_of_receive {registered : List Nat} {v : α} {h : Handle α} {f : Nat}
    (hr : h.receive registered v = .writer f) : h = .writer f := by
  cases h with
  | writer g => exact hr
  | view g => cases hr
  | subscription n g s => cases hr

/-- What receives a value and is a subscription was one before, and has the value now if it is
    registered. -/
theorem eq_subscription_of_receive {registered : List Nat} {v : α} {h : Handle α} {n f : Nat}
    {s' : Subscription α} (hr : h.receive registered v = .subscription n f s') :
    ∃ s, h = .subscription n f s ∧ s' = if registered.contains n then s.receive v else s := by
  cases h with
  | writer g => cases hr
  | view g => cases hr
  | subscription m g s =>
      simp only [receive, subscription.injEq] at hr
      obtain ⟨rfl, rfl, rfl⟩ := hr
      exact ⟨s, rfl, rfl⟩

end Handle

/-! ## Looking up names -/

section Lookup

variable [DecidableEq κ] {β : Type}

/-- Leaving a name out hides it and no other name. -/
theorem lookup_filter_ne (l : List (κ × β)) (name k : κ) :
    (l.filter fun e => e.1 ≠ name).lookup k = if k = name then none else l.lookup k := by
  induction l with
  | nil => simp
  | cons e rest ih =>
      obtain ⟨a, b⟩ := e
      by_cases ha : a = name
      · subst ha
        by_cases hk : k = a
        · subst hk; simpa using ih
        · have hka : (k == a) = false := by simpa using hk
          simpa [List.lookup_cons, hka] using ih
      · by_cases hka : k = a
        · subst hka; simp [ha]
        · have hka' : (k == a) = false := by simpa using hka
          simpa [List.lookup_cons, ha, hka'] using ih

/-- Giving a name a new meaning changes what it stands for and nothing else. -/
theorem lookup_rebind (l : List (κ × β)) (name k : κ) (b : β) :
    ((l.filter fun e => e.1 ≠ name) ++ [(name, b)]).lookup k
      = if k = name then some b else l.lookup k := by
  rw [List.lookup_append, lookup_filter_ne]
  by_cases hk : k = name
  · simp [hk]
  · have hk' : (k == name) = false := by simpa using hk
    simp [List.lookup_cons, hk, hk']

/-- Changing what names stand for changes what a look-up finds. -/
theorem lookup_map_snd {γ : Type} (l : List (κ × β)) (g : β → γ) (k : κ) :
    (l.map fun e => (e.1, g e.2)).lookup k = (l.lookup k).map g := by
  induction l with
  | nil => rfl
  | cons e rest ih =>
      obtain ⟨a, b⟩ := e
      simp only [List.map_cons, List.lookup_cons, ih]
      cases k == a <;> rfl

/-- Where no name occurs twice, a look-up finds exactly what is listed. -/
theorem lookup_eq_some_iff_mem {l : List (κ × β)} (hl : (l.map Prod.fst).Nodup) {k : κ} {b : β} :
    l.lookup k = some b ↔ (k, b) ∈ l := by
  induction l with
  | nil => simp
  | cons e rest ih =>
      obtain ⟨a, c⟩ := e
      rw [List.map_cons, List.nodup_cons] at hl
      obtain ⟨hna, hrest⟩ := hl
      by_cases hka : k = a
      · subst hka
        have hnot : (k, b) ∉ rest := fun hm => hna (List.mem_map.mpr ⟨(k, b), hm, rfl⟩)
        simp [hnot, eq_comm]
      · have hka' : (k == a) = false := by simpa using hka
        simp [List.lookup_cons, hka', hka, ih hrest]

end Lookup

namespace Table

variable [DecidableEq κ] {t : Table κ α}

/-- The flow that a name keeps alive. -/
def flowOf? (t : Table κ α) (name : κ) : Option Nat := (t.handle? name).bind Handle.keeps?

/-- The number of the subscription that a name stands for. -/
def numberOf? (t : Table κ α) (name : κ) : Option Nat := (t.handle? name).bind Handle.number?

/-- The names in use, in the order of their handles. -/
def names (t : Table κ α) : List κ := t.handles.map Prod.fst

/-! ## What names stand for -/

@[simp] theorem handle?_drop (t : Table κ α) (name k : κ) :
    (t.drop name).handle? k = if k = name then none else t.handle? k :=
  lookup_filter_ne t.handles name k

@[simp] theorem handle?_bind (t : Table κ α) (name k : κ) (h : Handle α) :
    (t.bind name h).handle? k = if k = name then some h else t.handle? k :=
  lookup_rebind t.handles name k h

/-- A name stands for what it was bound to, or for what it stood for before. -/
theorem handle?_bind_cases {name k : κ} {h h' : Handle α}
    (hk : (t.bind name h).handle? k = some h') :
    (k = name ∧ h' = h) ∨ (k ≠ name ∧ t.handle? k = some h') := by
  rw [handle?_bind] at hk
  split at hk
  · next hkn => exact Or.inl ⟨hkn, (Option.some.inj hk).symm⟩
  · next hkn => exact Or.inr ⟨hkn, hk⟩

/-- What a name stands for after a drop it stood for before. -/
theorem handle?_of_drop {name k : κ} {h : Handle α} (hk : (t.drop name).handle? k = some h) :
    t.handle? k = some h := by
  rw [handle?_drop] at hk
  split at hk
  · cases hk
  · exact hk

@[simp] theorem handle?_create (t : Table κ α) (name k : κ) (initial : α) :
    (t.create name initial).handle? k
      = if k = name then some (.writer t.flows.length) else t.handle? k :=
  handle?_bind _ name k _

@[simp] theorem handle?_subscribe (t : Table κ α) (f : Nat) (current : α) (name k : κ) :
    (t.subscribe f current name).handle? k
      = if k = name then some (.subscription t.opened f (.opened current)) else t.handle? k :=
  handle?_bind _ name k _

/-- The subscriptions of a flow that an emitted value reaches: those registered and not dropped. -/
def reached (t : Table κ α) (f : Nat) : List Nat :=
  ((t.flows[f]?.map Cell.registered).getD []).filter t.live.contains

@[simp] theorem handle?_emit (t : Table κ α) (f : Nat) (v : α) (k : κ) :
    (t.emit f v).handle? k = (t.handle? k).map (Handle.receive (t.reached f) v) :=
  lookup_map_snd t.handles _ k

/-- What a name stands for after an emit has received the value. -/
theorem handle?_of_emit {f : Nat} {v : α} {k : κ} {h' : Handle α}
    (hk : (t.emit f v).handle? k = some h') :
    ∃ h, t.handle? k = some h ∧ h.receive (t.reached f) v = h' := by
  rw [handle?_emit] at hk
  exact Option.map_eq_some_iff.mp hk

/-! ## Current values -/

@[simp] theorem value?_bind (t : Table κ α) (name : κ) (h : Handle α) (g : Nat) :
    (t.bind name h).value? g = t.value? g := rfl

@[simp] theorem value?_create (t : Table κ α) (name : κ) (initial : α) (g : Nat) :
    (t.create name initial).value? g
      = if g = t.flows.length then some initial else t.value? g := by
  show (t.flows ++ [⟨initial, []⟩])[g]?.map Cell.value = _
  rcases Nat.lt_trichotomy g t.flows.length with hlt | heq | hgt
  · rw [List.getElem?_append_left hlt, if_neg (Nat.ne_of_lt hlt)]; rfl
  · subst heq; simp
  · have hnone : t.flows[g]? = none := List.getElem?_eq_none (Nat.le_of_lt hgt)
    rw [List.getElem?_eq_none (by simp; omega), if_neg (Nat.ne_of_gt hgt), value?, hnone]

@[simp] theorem value?_subscribe (t : Table κ α) (f : Nat) (current : α) (name : κ) (g : Nat) :
    (t.subscribe f current name).value? g = t.value? g := by
  show (t.flows.modify f _)[g]?.map Cell.value = t.flows[g]?.map Cell.value
  rw [List.getElem?_modify]
  cases t.flows[g]? with
  | none => rfl
  | some c => by_cases hf : f = g <;> simp [hf]

omit [DecidableEq κ] in
theorem value?_emit (t : Table κ α) (f : Nat) (v : α) (g : Nat) (hf : f < t.flows.length) :
    (t.emit f v).value? g = if g = f then some v else t.value? g := by
  show (t.flows.set f _)[g]?.map Cell.value = _
  by_cases hg : g = f
  · subst hg; simp [List.getElem?_set_self hf]
  · rw [List.getElem?_set_ne (Ne.symm hg), if_neg hg]; rfl

/-! ## Names that occur once -/

theorem mem_handles_iff (ht : t.names.Nodup) {k : κ} {h : Handle α} :
    (k, h) ∈ t.handles ↔ t.handle? k = some h :=
  (lookup_eq_some_iff_mem ht).symm

theorem mem_live_iff (ht : t.names.Nodup) {n : Nat} :
    n ∈ t.live ↔ ∃ k f s, t.handle? k = some (.subscription n f s) := by
  simp only [live, List.mem_filterMap, Prod.exists]
  constructor
  · rintro ⟨k, h, hm, hn⟩
    obtain ⟨f, s, rfl⟩ := Handle.eq_subscription_of_number? hn
    exact ⟨k, f, s, (mem_handles_iff ht).mp hm⟩
  · rintro ⟨k, f, s, hk⟩
    exact ⟨k, _, (mem_handles_iff ht).mpr hk, rfl⟩

theorem nodup_names_drop (ht : t.names.Nodup) (name : κ) : (t.drop name).names.Nodup :=
  ht.sublist (List.filter_sublist.map Prod.fst)

theorem nodup_names_bind (ht : t.names.Nodup) (name : κ) (h : Handle α) :
    (t.bind name h).names.Nodup := by
  have hdrop : name ∉ (t.drop name).names := by
    simp [names, drop]
  show ((t.drop name).handles ++ [(name, h)]).map Prod.fst |>.Nodup
  rw [List.map_append, List.nodup_append]
  refine ⟨nodup_names_drop ht name, by simp, ?_⟩
  rintro a ha b hb rfl
  simp only [List.map_cons, List.map_nil, List.mem_singleton] at hb
  exact hdrop (hb ▸ ha)

omit [DecidableEq κ] in
theorem names_emit (t : Table κ α) (f : Nat) (v : α) : (t.emit f v).names = t.names := by
  simp [names, emit]

end Table

end ObservableStore.Flow
