import ObservableStore.Proofs.Text.Split
import ObservableStore.Proofs.Wrapper.Imports
import ObservableStore.Wrapper.Basic

/-!
# `Proofs.Wrapper.Naming` — what the names in a file of its own stand for

A written type is a path with arguments, and an import is a path behind `use`. This file reads them
back: `Wrapper.meaning` is the type that a path stands for in the wrapper's file, and
`WrittenType.walk` lists the paths of a written type in the order in which `Shape.walk` lists the
types that they were written for.

A path of several names always stands for itself. A single name stands for what the file imports
under it, and only otherwise for a type of the prelude. A prelude type is written by its simple name
whatever the file imports, so its name is sound exactly when no other type took it
(`StoreDescription.Takes`): neither the root nor a type of a field.

Names are compared here as they are written, as the pass over the imports compares them, so `String`
and `r#String` are two names. `Wrapper.identified?` reads the same file by identifiers.
-/

namespace ObservableStore

/-! ## Paths as they are written -/

/-- The path that is written for a name of a namespace, behind `::` if it starts outside the
    crate. -/
def Namespace.pathTo (ns : Namespace) (name : String) : Source.Path :=
  ⟨!(ns.isRelative || ns.asWritten), ns.segments ++ [name]⟩

theorem Namespace.toText_eq (ns : Namespace) : ns.toText = "::".intercalate ns.segments := by
  apply String.toList_inj.mp
  rw [String.toList_intercalate, ← Text.join_eq_intercalate]
  simp [Namespace.toText, Namespace.toChars, Namespace.separator]

/-- The text of the path is the qualified name. -/
theorem Namespace.toText_pathTo {ns : Namespace} (h : ns.segments ≠ []) (name : String) :
    (ns.pathTo name).toText = ns.qualify name := by
  unfold Namespace.qualify Namespace.pathTo Source.Path.toText
  rw [String.intercalate_append_of_ne_nil h (by simp), String.intercalate_singleton,
    ← Namespace.toText_eq]
  cases ns.isRelative || ns.asWritten <;> simp [String.append_assoc]

namespace WrittenType

/-- The path of a written type, its arguments left out. -/
def path : WrittenType → Source.Path
  | .simple name _ => .ofName name
  | .qualified home name _ => home.pathTo name

/-- The type arguments, in order. -/
def arguments : WrittenType → List WrittenType
  | .simple _ args => args
  | .qualified _ _ args => args

/-- The written type and every type argument at any depth, outermost first. -/
def walk : WrittenType → List WrittenType
  | .simple name args => .simple name args :: (args.map walk).flatten
  | .qualified home name args => .qualified home name args :: (args.map walk).flatten

end WrittenType

/-- The type that a shape without its arguments stands for. -/
def Shape.typeName (s : Shape) : TypeName := ⟨s.home, s.name⟩

/-! ## Reading a file of its own -/

/-- The type that a path of several names stands for. -/
def Source.Path.itself? (p : Source.Path) : Option TypeName := (Scope.split p.names).toOption

namespace Wrapper

/-- The paths behind the `use` lines of the file. -/
def usePaths (w : Wrapper) : List Source.Path := w.imports.map fun i => i.1.pathTo i.2

/-- The path that a `use` line gives a name, as it is written. -/
def used? (w : Wrapper) (name : String) : Option Source.Path :=
  w.usePaths.find? fun p => p.names.getLast? == some name

/-- The type that a path stands for in the file, its names as they are written. A single name stands
    for what the file imports under it, and otherwise for a type of the prelude; a path of several
    names stands for itself. -/
def meaning (w : Wrapper) : Source.Path → Option TypeName
  | ⟨false, [name]⟩ =>
    match w.used? name with
    | some p => p.itself?
    | none => (Prelude.home? name).map fun ns => ⟨ns, name⟩
  | p => p.itself?

end Wrapper

/-- A simple name is taken, as it is written, by the root or by a type of a field that the prelude
    does not have. -/
def StoreDescription.Takes (d : StoreDescription) (name : String) : Prop :=
  d.root = name ∨ ∃ s ∈ d.shapes, s.isPrelude = false ∧ s.name = name

/-! ## Paths of several names -/

theorem Namespace.Global.itself?_pathTo {ns : Namespace} (h : ns.Global) (name : String) :
    (ns.pathTo name).itself? = some ⟨ns, name⟩ := by
  have hsplit : Scope.split (ns.segments ++ [name]) = .ok ⟨ns, name⟩ := by
    unfold Scope.split
    simp [h.nonempty, h.eq_ofSegments]
  rw [Source.Path.itself?, Namespace.pathTo, hsplit]
  rfl

/-- A namespace has a segment, so the path is not a single name. -/
theorem Namespace.Global.names_pathTo_ne {ns : Namespace} (h : ns.Global) (name n : String) :
    (ns.pathTo name).names ≠ [n] := by
  intro hn
  have hlen := congrArg List.length hn
  simp [Namespace.pathTo, h.nonempty] at hlen

namespace Wrapper

variable {w : Wrapper} {ns : Namespace} {name : String}

/-- **A path of several names stands for itself.** -/
theorem meaning_pathTo (w : Wrapper) (h : ns.Global) (name : String) :
    w.meaning (ns.pathTo name) = some ⟨ns, name⟩ := by
  rw [← h.itself?_pathTo name]
  unfold meaning
  split
  · next n hp => exact absurd (by rw [hp]) (h.names_pathTo_ne name n)
  · rfl

/-! ## Single names -/

theorem used?_eq (w : Wrapper) (name : String) :
    w.used? name = (w.imports.find? fun i => i.2 == name).map fun i => i.1.pathTo i.2 := by
  unfold used? usePaths
  rw [List.find?_map]
  congr 2
  funext i
  simp [Namespace.pathTo]

/-- A name that the file imports stands for what it imports. -/
theorem meaning_imported {i : Import} (hnodup : (StoreDescription.importNames w.imports).Nodup)
    (hi : i ∈ w.imports) (h : i.1.Global) : w.meaning (.ofName i.2) = some ⟨i.1, i.2⟩ := by
  have hused : w.used? i.2 = some (i.1.pathTo i.2) := by
    rw [used?_eq, StoreDescription.find?_import hnodup hi]
    rfl
  simp only [meaning, Source.Path.ofName, hused]
  exact h.itself?_pathTo i.2

/-- A name that the file does not import stands for a type of the prelude. -/
theorem meaning_not_imported (h : ∀ i ∈ w.imports, i.2 ≠ name) :
    w.meaning (.ofName name) = (Prelude.home? name).map fun ns => ⟨ns, name⟩ := by
  have hfind : w.imports.find? (fun i => i.2 == name) = none := by
    refine List.find?_eq_none.mpr ?_
    intro i hi
    simpa using h i hi
  have hused : w.used? name = none := by
    rw [used?_eq, hfind]
    rfl
  simp only [meaning, Source.Path.ofName, hused]

end Wrapper

/-! ## Written types -/

namespace StoreDescription

variable {d : StoreDescription} {s : Shape} {runtime : String}

/-- Written types have the arguments of their shapes, in the same order. -/
theorem walk_written (d : StoreDescription) (layout : Layout) :
    (s : Shape) → (d.written layout s).walk = s.walk.map (d.written layout)
  | .mk home name args => by
      have hargs : (args.map (d.written layout)).map WrittenType.walk
          = (args.map Shape.walk).map (List.map (d.written layout)) := by
        rw [List.map_map, List.map_map]
        exact List.map_congr_left fun a ha => walk_written d layout a
      rw [Shape.walk, List.map_cons, List.map_flatten, ← hargs, written]
      split <;> rw [WrittenType.walk]

/-- Types that the prelude does not have take their names. -/
theorem takes_of_import {i : Import} (hi : i ∈ d.imports) : d.Takes i.2 := by
  rcases import_cases hi with rfl | ⟨s, hs, hp, rfl⟩
  · exact Or.inl rfl
  · exact Or.inr ⟨s, hs, hp, rfl⟩

/-- A name that is taken is imported. -/
theorem import_of_takes {name : String} (h : d.Takes name) : ∃ i ∈ d.imports, i.2 = name := by
  rcases h with hroot | ⟨s, hs, hp, hname⟩
  · exact ⟨_, d.root_imported, hroot⟩
  · obtain ⟨i, hi, hin⟩ := name_imported hs hp
    exact ⟨i, hi, hin.trans hname⟩

/-- What is imported is not of the prelude. -/
theorem import_not_prelude {i : Import} (hroot : Prelude.covers d.home d.root = false)
    (hi : i ∈ d.imports) : Prelude.covers i.1 i.2 = false := by
  rcases import_cases hi with rfl | ⟨s, -, hp, rfl⟩
  · exact hroot
  · exact hp

/-- The namespaces of all imports hold everywhere if those of the root and of all fields do. -/
theorem import_global {i : Import} (hhome : d.home.Global)
    (hshapes : ∀ s ∈ d.shapes, s.home.Global) (hi : i ∈ d.imports) : i.1.Global := by
  rcases import_cases hi with rfl | ⟨s, hs, -, rfl⟩
  · exact hhome
  · exact hshapes s hs

/-- A type of the prelude is written soundly exactly when its name is not taken. -/
theorem meaning_prelude {home : Namespace} {name : String} (hhome : d.home.Global)
    (hroot : Prelude.covers d.home d.root = false) (hshapes : ∀ s ∈ d.shapes, s.home.Global)
    (hp : Prelude.covers home name = true) :
    (Wrapper.ofDescription d ⟨runtime, .module⟩).meaning (.ofName name) = some ⟨home, name⟩ ↔
      ¬ d.Takes name := by
  have hnodup : (importNames (Wrapper.ofDescription d ⟨runtime, .module⟩).imports).Nodup :=
    d.nodup_import_names
  constructor
  · -- the import under a taken name is of another namespace, or it would be of the prelude, too
    rintro hmeaning htaken
    obtain ⟨i, hi, rfl⟩ := import_of_takes htaken
    rw [Wrapper.meaning_imported hnodup hi (import_global hhome hshapes hi)] at hmeaning
    have hhomes : i.1 = home := congrArg TypeName.home (Option.some.inj hmeaning)
    have hnot := import_not_prelude hroot hi
    rw [hhomes, hp] at hnot
    cases hnot
  · intro hfree
    have hnone : ∀ i ∈ (Wrapper.ofDescription d ⟨runtime, .module⟩).imports, i.2 ≠ name := by
      rintro i hi rfl
      exact hfree (takes_of_import hi)
    rw [Wrapper.meaning_not_imported hnone, Prelude.covers_iff.mp hp]
    rfl

/-- **What a written type stands for.** In the root's own file a type is written soundly, except for
    a type of the prelude whose name is taken. -/
theorem meaning_written (hhome : d.home.Global) (hroot : Prelude.covers d.home d.root = false)
    (hshapes : ∀ s ∈ d.shapes, s.home.Global) (hs : s ∈ d.shapes) :
    (Wrapper.ofDescription d ⟨runtime, .module⟩).meaning (d.written .module s).path
        = some s.typeName ↔
      (s.isPrelude = true → ¬ d.Takes s.name) := by
  have hglobal : s.home.Global := hshapes s hs
  obtain ⟨home, name, args⟩ := s
  cases hp : Prelude.covers home name with
  | true =>
      have hpath : (d.written .module (.mk home name args)).path = .ofName name := by
        simp [written, nameable, hp, WrittenType.path]
      rw [hpath]
      exact (meaning_prelude hhome hroot hshapes hp).trans ⟨fun h _ => h, fun h => h hp⟩
  | false =>
      have hright : (Shape.mk home name args).isPrelude = true → ¬ d.Takes name := by
        intro hprelude
        cases hp.symm.trans hprelude
      -- outside the prelude a type is written by the name it is imported under or as a path
      refine ⟨fun _ => hright, fun _ => ?_⟩
      by_cases himported : (home, name) ∈ d.imports
      · have hpath : (d.written .module (.mk home name args)).path = .ofName name := by
          simp [written, nameable, hp, himported, WrittenType.path]
        rw [hpath]
        exact Wrapper.meaning_imported (i := (home, name)) d.nodup_import_names himported hglobal
      · have hpath : (d.written .module (.mk home name args)).path = home.pathTo name := by
          simp [written, nameable, hp, himported, WrittenType.path]
        rw [hpath]
        exact Wrapper.meaning_pathTo _ hglobal name

end StoreDescription

end ObservableStore
