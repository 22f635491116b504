import ObservableStore.Scope

/-!
# `Proofs.Scope.Steps` — a scope grows step by step

An item adds to a scope one thing after the other: types, modules, single imports, imports of whole
modules. The tree of an import is only a way to write several of these at once, so the scope of a
module is one run of steps (`ofItems_eq_run`): those of modules and external crates first.

A step reads the scope in one place only. It makes a path absolute, and that depends on what the
first name of the path means (`absolute_apply`). What it then adds does not depend on the scope
(`Addition`).
-/

namespace ObservableStore.Scope

/-- One thing that is added to a scope. -/
inductive Step where
  | declareType (name : String)
  | declareModule (name : String)
  /-- A name for the item at a path. -/
  | importAs (given : String) (path : List String)
  /-- All items of the module at a path. -/
  | importAll (path : List String)
deriving DecidableEq, Repr

/-- Takes a step. -/
def apply (s : Scope) : Step → Scope
  | .declareType name => s.addType name
  | .declareModule name => s.addModule name
  | .importAs given path => s.addImport given path
  | .importAll path => s.addGlob path

/-- Takes steps in order. -/
def run (s : Scope) (steps : List Step) : Scope := steps.foldl apply s

@[simp] theorem run_nil (s : Scope) : s.run [] = s := rfl

@[simp] theorem run_cons (s : Scope) (step : Step) (steps : List Step) :
    s.run (step :: steps) = (s.apply step).run steps := rfl

theorem run_append (s : Scope) (steps more : List Step) :
    s.run (steps ++ more) = (s.run steps).run more := List.foldl_append

/-! ## The steps of items -/

mutual

/-- The steps of the tree of an import below a path. -/
def useSteps (above : List String) : Source.UseTree → List Step
  | .path name tree => useSteps (above ++ [name]) tree
  | .name name =>
    if name = "self" then above.getLast?.toList.map fun last => .importAs last above
    else [.importAs name (above ++ [name])]
  | .rename name given =>
    if given = "_" then []
    else [.importAs given (if name = "self" then above else above ++ [name])]
  | .glob => [.importAll above]
  | .group trees => useStepsAll above trees

/-- The steps of trees below a path, from left to right. -/
def useStepsAll (above : List String) : List Source.UseTree → List Step
  | [] => []
  | tree :: rest => useSteps above tree ++ useStepsAll above rest

end

mutual

/-- The tree of an import is the run of its steps. -/
theorem addUse_eq_run (s : Scope) (above : List String) :
    (tree : Source.UseTree) → s.addUse above tree = s.run (useSteps above tree)
  | .path name tree => by
      rw [addUse, useSteps]
      exact addUse_eq_run s (above ++ [name]) tree
  | .name name => by
      rw [addUse, useSteps]
      split
      · cases above.getLast? <;> rfl
      · rfl
  | .rename name given => by
      rw [addUse, useSteps]
      split <;> rfl
  | .glob => by
      rw [addUse, useSteps]
      rfl
  | .group trees => by
      rw [addUse, useSteps]
      exact addUses_eq_run s above trees

theorem addUses_eq_run (s : Scope) (above : List String) :
    (trees : List Source.UseTree) → s.addUses above trees = s.run (useStepsAll above trees)
  | [] => by
      rw [addUses, useStepsAll]
      rfl
  | tree :: rest => by
      rw [addUses, useStepsAll, run_append, ← addUse_eq_run s above tree]
      exact addUses_eq_run (s.addUse above tree) above rest

end

/-- What imports may go through: the steps of a module or of an external crate. -/
def rootSteps : Source.Item → List Step
  | .module name _ => [.declareModule name]
  | .externCrate name given =>
    if given.getD name = "_" then [] else [.importAs (given.getD name) [name]]
  | _ => []

/-- The steps of a type or of an import. -/
def itemSteps : Source.Item → List Step
  | .declaration d => [.declareType d.name]
  | .typeAlias name => [.declareType name]
  | .trait name => [.declareType name]
  | .use _ tree => useSteps [] tree
  | _ => []

theorem addRoot_eq_run (s : Scope) (item : Source.Item) : s.addRoot item = s.run (rootSteps item) := by
  cases item with
  | externCrate name given =>
      simp only [addRoot, rootSteps]
      split <;> rfl
  | _ => rfl

theorem addItem_eq_run (s : Scope) (item : Source.Item) : s.addItem item = s.run (itemSteps item) := by
  cases item with
  | use rooted tree => exact addUse_eq_run s [] tree
  | _ => rfl

theorem foldl_eq_run {α : Type} {f : Scope → α → Scope} {g : α → List Step}
    (h : ∀ s a, f s a = s.run (g a)) (s : Scope) (as : List α) :
    as.foldl f s = s.run (as.flatMap g) := by
  induction as generalizing s with
  | nil => rfl
  | cons a as ih => rw [List.foldl_cons, List.flatMap_cons, run_append, ih, h]

/-- **The scope of a module is one run**: the steps of what imports may go through, and then those of
    types and imports. -/
theorem ofItems_eq_run (home : Namespace) (items : List Source.Item) :
    ofItems home items
      = (strictly home).run (items.flatMap rootSteps ++ items.flatMap itemSteps) := by
  rw [run_append, ← foldl_eq_run addRoot_eq_run, ← foldl_eq_run addItem_eq_run]
  rfl

/-! ## What a step adds -/

/-- What is put into a scope. -/
structure Addition where
  types : List String := []
  modules : List String := []
  imports : List (String × List String) := []
  globs : List Namespace := []

/-- Puts an addition into a scope. -/
def add (s : Scope) (a : Addition) : Scope :=
  { s with
    types := a.types ++ s.types
    modules := a.modules ++ s.modules
    imports := a.imports ++ s.imports
    globs := s.globs ++ a.globs }

/-- What a step puts into a scope. A path without an absolute one puts nothing. -/
def addition (s : Scope) : Step → Addition
  | .declareType name => { types := [name] }
  | .declareModule name => { modules := [name] }
  | .importAs given path =>
    match s.absolute path with
    | .ok full => { imports := [(given, full)] }
    | .error _ => {}
  | .importAll path =>
    match s.absolute path with
    | .ok full => { globs := [.ofSegments full] }
    | .error _ => {}

theorem apply_eq_add (s : Scope) (step : Step) : s.apply step = s.add (s.addition step) := by
  cases step with
  | declareType name => simp [apply, addType, add, addition]
  | declareModule name => simp [apply, addModule, add, addition]
  | importAs given path =>
      cases hp : s.absolute path <;> simp [apply, addImport, add, addition, hp]
  | importAll path =>
      cases hp : s.absolute path <;> simp [apply, addGlob, add, addition, hp]

namespace Step

/-- The name that a step gives to something. -/
def name? : Step → Option String
  | .declareType name => some name
  | .declareModule name => some name
  | .importAs given _ => some given
  | .importAll _ => none

/-- The name through which later paths go because of a step. Types lead nowhere, and what is imported
    under the only name of its path is found without the import. -/
def door? : Step → Option String
  | .declareType _ => none
  | .declareModule name => some name
  | .importAs given path => if path = [given] then none else some given
  | .importAll _ => none

/-- The name that the path of a step begins with. -/
def entry? : Step → Option String
  | .declareType _ => none
  | .declareModule _ => none
  | .importAs _ path => path.head?
  | .importAll path => path.head?

end Step

theorem door_of_mem_modules {s : Scope} {step : Step} {name : String}
    (h : name ∈ (s.addition step).modules) : step.door? = some name := by
  cases step with
  | declareModule name' =>
      obtain rfl := List.mem_singleton.mp h
      rfl
  | declareType name' => cases h
  | importAs given path =>
      simp only [addition] at h
      split at h <;> cases h
  | importAll path =>
      simp only [addition] at h
      split at h <;> cases h

theorem name_of_mem_imports {s : Scope} {step : Step} {name : String} {full : List String}
    (h : (name, full) ∈ (s.addition step).imports) : ∃ path, step = .importAs name path := by
  cases step with
  | importAs given path =>
      simp only [addition] at h
      split at h
      · obtain ⟨rfl, -⟩ := Prod.mk.inj (List.mem_singleton.mp h)
        exact ⟨path, rfl⟩
      · cases h
  | declareType name' => cases h
  | declareModule name' => cases h
  | importAll path =>
      simp only [addition] at h
      split at h <;> cases h

/-! ## What a path depends on -/

/-- The absolute path depends on the home of a scope and on what the first name means. -/
theorem absolute_congr {s t : Scope} {path : List String} (hhome : s.home = t.home)
    (h : ∀ first, path.head? = some first →
      (first ∈ s.modules ↔ first ∈ t.modules) ∧ s.imported? first = t.imported? first) :
    s.absolute path = t.absolute path := by
  cases path with
  | nil => rfl
  | cons first rest =>
      obtain ⟨hmodules, himported⟩ := h first rfl
      simp only [absolute, hhome, hmodules, himported]

theorem lookup_append_of_not_mem {α : Type} {name : String} {new old : List (String × α)}
    (h : ∀ a, (name, a) ∉ new) : (new ++ old).lookup name = old.lookup name := by
  have hnone : new.lookup name = none := by
    rw [List.lookup_eq_none_iff]
    rintro ⟨other, a⟩ hmem
    rw [bne_iff_ne]
    rintro rfl
    exact h a hmem
  rw [List.lookup_append, hnone, Option.none_or]

/-- Nor does it matter whether a name is imported as what it stands for anyway. -/
theorem absolute_of_imported {s t : Scope} {first : String} {full : List String}
    (hhome : s.home = t.home) (hmodules : s.modules = t.modules)
    (hfull : s.absolute [first] = .ok full) (himported : t.imported? first = some full)
    (rest : List String) : t.absolute (first :: rest) = s.absolute (first :: rest) := by
  simp only [absolute, ← hhome, ← hmodules, himported] at hfull ⊢
  -- the words and the modules come before the imports
  split
  · rfl
  split
  · rfl
  split
  · rfl
  split
  · rfl
  · next hcrate hself hsuper hmodule =>
      rw [if_neg hcrate, if_neg hself, if_neg hsuper, if_neg hmodule] at hfull
      cases hold : s.imported? first with
      | none =>
          rw [hold] at hfull
          obtain rfl := Except.ok.inj hfull
          rfl
      | some found =>
          rw [hold] at hfull
          obtain rfl := Except.ok.inj hfull
          simp

/-- An import under the only name of its path changes no absolute path. -/
theorem absolute_importAs_itself (s : Scope) (name : String) (path : List String) :
    (s.apply (.importAs name [name])).absolute path = s.absolute path := by
  rw [apply_eq_add]
  cases hfull : s.absolute [name] with
  | error e => simp [addition, hfull, add]
  | ok full =>
      cases path with
      | nil => rfl
      | cons first rest =>
          by_cases hfirst : first = name
          · subst hfirst
            refine absolute_of_imported ?_ ?_ hfull ?_ rest
            · rfl
            · simp [add, addition, hfull]
            · simp [imported?, add, addition, hfull]
          · refine absolute_congr rfl ?_
            intro other hother
            obtain rfl := Option.some.inj hother
            refine ⟨by simp [add, addition, hfull], lookup_append_of_not_mem ?_⟩
            intro a hmem
            obtain ⟨path, heq⟩ := name_of_mem_imports hmem
            exact hfirst (Step.importAs.inj heq).1.symm

/-- A step that opens no door for the first name of a path leaves the path as it is. -/
theorem absolute_apply {s : Scope} {step : Step} {path : List String}
    (h : ∀ first, path.head? = some first → step.door? ≠ some first) :
    (s.apply step).absolute path = s.absolute path := by
  by_cases hitself : ∃ name, step = .importAs name [name]
  · obtain ⟨name, rfl⟩ := hitself
    exact absolute_importAs_itself s name path
  rw [apply_eq_add]
  refine absolute_congr rfl ?_
  intro first hfirst
  constructor
  · constructor
    · intro hmem
      rcases List.mem_append.mp hmem with hnew | hold
      · exact absurd (door_of_mem_modules hnew) (h first hfirst)
      · exact hold
    · exact List.mem_append_right _
  · refine lookup_append_of_not_mem fun full hmem => h first hfirst ?_
    obtain ⟨path', rfl⟩ := name_of_mem_imports hmem
    refine if_neg ?_
    rintro rfl
    exact hitself ⟨first, rfl⟩

end ObservableStore.Scope
