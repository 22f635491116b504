import ObservableStore.Proofs.Flow.Table
import ObservableStore.Store.Basic
import ObservableStore.Wrapper.Basic

/-!
# `Proofs.Wrapper.Update` — the state that a written mutator makes

A store's mutator replaces one field of the state that it read (`Record.update`). A wrapper's mutator
says this with a struct literal: it gives the one field and, where the root has others, takes the
rest from the state that was read. This file reads the literal as the language does
(`Literal.make?`), where a literal that neither gives a field nor has anything to take it from makes
nothing, and proves the two equal (`Wrapper.make?_literal`). So the wrapper of a root with one field,
which leaves the rest out, makes a complete state, and that of a root with several does, too.
-/

namespace ObservableStore

/-! ## Replacing one field -/

namespace Record

variable {V : Type} (r : Record V) (field : String) (f : V → V)

/-- An update replaces values and leaves the fields where they are. -/
theorem update_eq :
    r.update field f = r.map fun e => (e.1, if e.1 = field then f e.2 else e.2) := by
  apply List.map_congr_left
  intro e he
  split <;> rfl

/-- A record has a value for each of its fields. -/
theorem exists_get?_iff : (∃ v, r.get? field = some v) ↔ field ∈ r.map Prod.fst := by
  unfold get?
  induction r with
  | nil => simp
  | cons e rest ih =>
      obtain ⟨name, v⟩ := e
      rw [List.lookup_cons, List.map_cons, List.mem_cons]
      cases hk : field == name with
      | true => simp [eq_of_beq hk]
      | false =>
          have hne : field ≠ name := by simpa using hk
          simpa [hne] using ih

end Record

/-! ## Struct literals -/

/-- A struct literal as wrappers write it. -/
structure Literal where
  /-- The fields given, each with the variable that has its value. -/
  given : List (String × String)
  /-- The variable with the record that the other fields are taken from. -/
  rest? : Option String

namespace Literal

variable {V : Type}

/-- The lines between the braces. -/
def code (l : Literal) : List Code :=
  l.given.map (fun e => .line (e.1 ++ ": " ++ e.2 ++ ",")) ++
    l.rest?.toList.map fun name => .line (".." ++ name)

/-- The value of one field: it is given, or it is taken from the rest. -/
def field? (l : Literal) (values : List (String × V)) (records : List (String × Record V))
    (field : String) : Option V :=
  match l.given.lookup field with
  | some name => values.lookup name
  | none => do
    let name ← l.rest?
    let r ← records.lookup name
    r.get? field

/-- The record that a literal of a type with these fields makes, every field with its value. A field
    without one leaves the literal incomplete, and it makes nothing. -/
def make? (l : Literal) (fields : List String) (values : List (String × V))
    (records : List (String × Record V)) : Option (Record V) :=
  fields.mapM fun field => (l.field? values records field).map (field, ·)

/-- A literal makes the record whose entries it gives one by one. -/
theorem make?_of_entries {l : Literal} {values : List (String × V)}
    {records : List (String × Record V)} {r : Record V} {new : String × V → V}
    (h : ∀ e ∈ r, l.field? values records e.1 = some (new e)) :
    l.make? (r.map Prod.fst) values records = some (r.map fun e => (e.1, new e)) := by
  unfold make?
  induction r with
  | nil => rfl
  | cons e rest ih =>
      have hfirst := h e List.mem_cons_self
      have hrest := ih fun e' he' => h e' (List.mem_cons_of_mem e he')
      rw [List.map_cons, List.mapM_cons, hfirst, hrest]
      rfl

end Literal

namespace Wrapper

variable {V : Type}

/-- The literal in which a mutator writes the new state. -/
def literal (w : Wrapper) (m : Mutator) : Literal where
  given := [(m.field, "new_value")]
  rest? := if w.keepsOthers then some "old_state" else none

/-- What a mutator publishes is its literal. -/
theorem literal_mem_updateCode (w : Wrapper) (m : Mutator) :
    .block ("let new_state = " ++ w.root ++ " \x7b") (w.literal m).code "\x7d;"
      ∈ w.updateCode m := by
  have hcode : (w.literal m).code = [.line (m.field ++ ": new_value,")] ++
      if w.keepsOthers then [.line "..old_state"] else [] := by
    unfold literal Literal.code
    cases w.keepsOthers <;> simp [String.append_assoc]
  rw [hcode]
  simp [updateCode]

/-- A wrapper has other fields to keep when there are two different fields. -/
theorem keepsOthers_of_ne {d : StoreDescription} {o : EmitOptions} {a b : String}
    (ha : a ∈ d.fields.map FieldDescription.name) (hb : b ∈ d.fields.map FieldDescription.name)
    (hab : a ≠ b) : (ofDescription d o).keepsOthers = true := by
  show decide (d.fields.length > 1) = true
  rw [decide_eq_true_iff]
  rcases hfields : d.fields with _ | ⟨first, _ | ⟨second, rest⟩⟩
  · simp [hfields] at ha
  · simp only [hfields, List.map_cons, List.map_nil, List.mem_singleton] at ha hb
    exact absurd (ha.trans hb.symm) hab
  · simp

/-- **The literal is the update.** The literal that a mutator of a wrapper writes makes the complete
    state: the one that was read with the mutator's field replaced, whether or not the root has other
    fields. -/
theorem make?_literal {d : StoreDescription} {o : EmitOptions} {m : Mutator} {r : Record V}
    (hnames : d.fields.map FieldDescription.name = r.map Prod.fst)
    (hdistinct : (r.map Prod.fst).Nodup) (f : V → V) {v : V} (hv : r.get? m.field = some v) :
    ((ofDescription d o).literal m).make? (r.map Prod.fst) [("new_value", f v)]
      [("old_state", r)] = some (r.update m.field f) := by
  have hget : ∀ e ∈ r, r.get? e.1 = some e.2 := by
    intro e he
    exact (Flow.lookup_eq_some_iff_mem hdistinct).mpr he
  rw [Record.update_eq]
  apply Literal.make?_of_entries
  intro e he
  unfold Literal.field? literal
  by_cases hfield : e.1 = m.field
  · -- the field is given
    obtain rfl : v = e.2 := Option.some.inj (hv.symm.trans (hfield ▸ hget e he))
    simp [hfield]
  · -- the field is taken from what was read, which takes that there is such a rest
    have hfields : m.field ∈ r.map Prod.fst :=
      List.mem_map.mpr ⟨(m.field, v), (Flow.lookup_eq_some_iff_mem hdistinct).mp hv, rfl⟩
    have hkeeps : (ofDescription d o).keepsOthers = true :=
      keepsOthers_of_ne (hnames ▸ List.mem_map_of_mem he) (hnames ▸ hfields) hfield
    have hother : (e.1 == m.field) = false := by simpa using hfield
    simp [List.lookup_cons, hother, hkeeps, hget e he, hfield]

/-- Without the rest, the literal of a root with one field is complete, and that of a root with two is
    not. -/
example :
    (Literal.mk [("count", "new_value")] none).make? ["count"] [("new_value", 1)]
      [("old_state", [("count", 0)])] = some [("count", 1)] ∧
    (Literal.mk [("count", "new_value")] none).make? ["count", "size"] [("new_value", 1)]
      [("old_state", [("count", 0), ("size", 2)])] = none :=
  ⟨rfl, rfl⟩

end Wrapper

end ObservableStore
