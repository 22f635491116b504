import ObservableStore.Proofs.Describe
import ObservableStore.Wrapper.TypeNames

/-!
# `Proofs.Wrapper.Imports` — what a file of its own imports

The imports of a wrapper are chosen by a pass over the references of all fields, in order, that
begins with the root and takes a reference unless its simple name is taken. What the rest of a proof
needs of that pass are three facts: no simple name is imported twice (`nodup_import_names`), what is
imported is the root or a type of a field (`import_cases`), and the simple name of each type of a
field that needs an import is imported, from one namespace or another (`name_imported`).
-/

namespace ObservableStore.StoreDescription

variable {d : StoreDescription} {i : Import} {s : Shape}

/-- The simple names of imports. -/
abbrev importNames (is : List Import) : List String := is.map Prod.snd

theorem addImport_of_mem {found : List Import} (h : i.2 ∈ importNames found) :
    addImport found i = found := by
  obtain ⟨j, hj, hname⟩ := List.mem_map.mp h
  exact if_pos (List.any_eq_true.mpr ⟨j, hj, by simpa using hname⟩)

theorem addImport_of_not_mem {found : List Import} (h : i.2 ∉ importNames found) :
    addImport found i = found ++ [i] := by
  refine if_neg ?_
  intro hany
  obtain ⟨j, hj, hname⟩ := List.any_eq_true.mp hany
  exact h (List.mem_map.mpr ⟨j, hj, by simpa using hname⟩)

/-- Where no simple name is imported twice, an import is found by its name. -/
theorem find?_import {is : List Import} (hnodup : (importNames is).Nodup) (hi : i ∈ is) :
    is.find? (fun j => j.2 == i.2) = some i := by
  obtain ⟨before, after, hsplit⟩ := List.append_of_mem hi
  rw [hsplit, importNames, List.map_append, List.nodup_append] at hnodup
  refine List.find?_eq_some_iff_append.mpr ⟨by simp, before, after, hsplit, ?_⟩
  intro j hj
  have hne : j.2 ≠ i.2 := hnodup.2.2 j.2 (List.mem_map_of_mem hj) i.2 List.mem_cons_self
  simpa using hne

/-! ## The pass over the references -/

theorem nodup_foldl_addImport (refs : List Import) {found : List Import}
    (h : (importNames found).Nodup) : (importNames (refs.foldl addImport found)).Nodup := by
  -- the induction is on the references left, for whatever was found before them
  induction refs generalizing found with
  | nil => exact h
  | cons i rest ih =>
      refine ih ?_
      by_cases hi : i.2 ∈ importNames found
      · rw [addImport_of_mem hi]
        exact h
      · rw [addImport_of_not_mem hi, importNames, List.map_append, List.nodup_append]
        refine ⟨h, by simp, ?_⟩
        rintro name hname other hother rfl
        obtain rfl : name = i.2 := by simpa using hother
        exact hi hname

theorem mem_foldl_addImport (refs : List Import) {found : List Import}
    (h : i ∈ refs.foldl addImport found) : i ∈ found ∨ i ∈ refs := by
  induction refs generalizing found with
  | nil => exact Or.inl h
  | cons j rest ih =>
      rcases ih h with hfound | hrest
      · by_cases hj : j.2 ∈ importNames found
        · rw [addImport_of_mem hj] at hfound
          exact Or.inl hfound
        · rw [addImport_of_not_mem hj, List.mem_append, List.mem_singleton] at hfound
          rcases hfound with hfound | rfl
          · exact Or.inl hfound
          · exact Or.inr List.mem_cons_self
      · exact Or.inr (List.mem_cons_of_mem j hrest)

/-- What was found stays. -/
theorem mem_foldl_of_found (refs : List Import) {found : List Import} (h : i ∈ found) :
    i ∈ refs.foldl addImport found := by
  induction refs generalizing found with
  | nil => exact h
  | cons j rest ih =>
      refine ih ?_
      by_cases hj : j.2 ∈ importNames found
      · rwa [addImport_of_mem hj]
      · rw [addImport_of_not_mem hj]
        exact List.mem_append_left _ h

/-- The name of each reference is taken in the end. -/
theorem name_mem_foldl (refs : List Import) {found : List Import} (h : i ∈ refs) :
    i.2 ∈ importNames (refs.foldl addImport found) := by
  induction refs generalizing found with
  | nil => cases h
  | cons j rest ih =>
      rcases List.mem_cons.mp h with rfl | hrest
      · have htaken : i.2 ∈ importNames (addImport found i) := by
          by_cases hi : i.2 ∈ importNames found
          · rwa [addImport_of_mem hi]
          · rw [addImport_of_not_mem hi]
            simp
        obtain ⟨k, hk, hname⟩ := List.mem_map.mp htaken
        exact List.mem_map.mpr ⟨k, mem_foldl_of_found rest hk, hname⟩
      · exact ih hrest

/-! ## The imports -/

/-- A reference is a type of a field that the prelude does not have. -/
theorem mem_references :
    i ∈ d.references ↔ ∃ s ∈ d.shapes, s.isPrelude = false ∧ (s.home, s.name) = i := by
  simp only [references, List.mem_mergeSort, List.mem_map, List.mem_filter, Bool.not_eq_true',
    and_assoc]

/-- The names of the imports, in the order in which they are found. -/
theorem mem_imports : i ∈ d.imports ↔ i ∈ d.references.foldl addImport [(d.home, d.root)] :=
  List.mem_mergeSort

/-- **No simple name is imported twice.** -/
theorem nodup_import_names (d : StoreDescription) : (importNames d.imports).Nodup := by
  have hperm := (List.mergeSort_perm (d.references.foldl addImport [(d.home, d.root)]) Import.le).map
    Prod.snd
  exact hperm.nodup_iff.mpr (nodup_foldl_addImport d.references (by simp))

/-- The root is imported. -/
theorem root_imported (d : StoreDescription) : (d.home, d.root) ∈ d.imports :=
  mem_imports.mpr (mem_foldl_of_found d.references List.mem_cons_self)

/-- What is imported is the root or a type of a field that the prelude does not have. -/
theorem import_cases (h : i ∈ d.imports) :
    i = (d.home, d.root) ∨ ∃ s ∈ d.shapes, s.isPrelude = false ∧ (s.home, s.name) = i := by
  rcases mem_foldl_addImport d.references (mem_imports.mp h) with hroot | hrefs
  · exact Or.inl (List.mem_singleton.mp hroot)
  · exact Or.inr (mem_references.mp hrefs)

/-- The simple name of each type that needs an import is imported. -/
theorem name_imported (hs : s ∈ d.shapes) (hp : s.isPrelude = false) :
    ∃ i ∈ d.imports, i.2 = s.name := by
  have href : (s.home, s.name) ∈ d.references := mem_references.mpr ⟨s, hs, hp, rfl⟩
  obtain ⟨i, hi, hname⟩ := List.mem_map.mp (name_mem_foldl d.references href)
  exact ⟨i, mem_imports.mpr hi, hname⟩

end ObservableStore.StoreDescription
