import ObservableStore.Proofs.Wrapper.MethodNames
import ObservableStore.Proofs.Wrapper.Naming

/-!
# `Proofs.Wrapper.Identifiers` — what the names in a file stand for as identifiers

`Wrapper.meaning` compares names as they are written. As identifiers two names are the same if they
differ in raw marks only, so a name may stand for what a `use` line binds under another spelling, and
two `use` lines may bind one identifier. `Wrapper.identified?` is the reading of a path that takes
this into account: a single name stands for what the one import of its identifier is, for a type of
the prelude if there is none, and for no type if there are several. Unicode normal forms are left out:
identifiers with different characters are different.

A type that is written as a path stands for itself in this reading, too. One that is written by its
simple name does exactly when nothing but the type itself is imported under its identifier, and only
once (`identified?_written`). So a name of the prelude can also be taken by a marked name.
-/

namespace ObservableStore

/-! ## Types as identifiers -/

/-- A namespace without raw marks. -/
def Namespace.bare (ns : Namespace) : Namespace := { ns with segments := ns.segments.map bareName }

/-- A type without raw marks. -/
def TypeName.bare (t : TypeName) : TypeName := ⟨t.home.bare, bareName t.name⟩

/-- The type that is imported. -/
def Import.typeName (i : Import) : TypeName := ⟨i.1, i.2⟩

/-- The imports of an identifier. -/
def importsOf (is : List Import) (name : String) : List Import :=
  is.filter fun i => bareName i.2 == bareName name

theorem mem_importsOf {is : List Import} {name : String} {i : Import} :
    i ∈ importsOf is name ↔ i ∈ is ∧ bareName i.2 = bareName name := by
  rw [importsOf, List.mem_filter, beq_iff_eq]

/-- Names of the prelude have no raw marks. -/
theorem Prelude.bareName_of_home? {name : String} {ns : Namespace}
    (h : Prelude.home? name = some ns) : bareName name = name := by
  have hmem : name ∈ Prelude.primitives ++ ["String", "Vec", "Option", "Result", "Box"] := by
    unfold Prelude.home? at h
    split at h
    · next hprimitive => exact List.mem_append_left _ hprimitive
    · split at h
      all_goals first | decide | cases h
  have hbare : ∀ n ∈ Prelude.primitives ++ ["String", "Vec", "Option", "Result", "Box"],
      bareName n = n := by decide
  exact hbare name hmem

/-! ## Reading a file by identifiers -/

namespace Wrapper

/-- The type that a path stands for in the file, its names taken as identifiers. A single name stands
    for what the file imports under it, if that is one type, and otherwise for a type of the prelude
    if nothing is imported under it; a path of several names stands for itself. -/
def identified? (w : Wrapper) : Source.Path → Option TypeName
  | ⟨false, [name]⟩ =>
    match w.usePaths.filter fun p => p.names.getLast?.map bareName == some (bareName name) with
    | [] => (Prelude.home? (bareName name)).map fun ns => ⟨ns, bareName name⟩
    | [p] => p.itself?
    | _ => none
  | p => p.itself?

variable {w : Wrapper} {ns : Namespace} {name : String}

/-- **A path of several names stands for itself.** -/
theorem identified?_pathTo (w : Wrapper) (h : ns.Global) (name : String) :
    w.identified? (ns.pathTo name) = some ⟨ns, name⟩ := by
  rw [← h.itself?_pathTo name]
  unfold identified?
  split
  · next n hp => exact absurd (by rw [hp]) (h.names_pathTo_ne name n)
  · rfl

/-- A single name is read by the imports of its identifier. -/
theorem identified?_ofName (hglobal : ∀ i ∈ w.imports, i.1.Global) (name : String) :
    w.identified? (.ofName name) = match importsOf w.imports name with
      | [] => (Prelude.home? (bareName name)).map fun ns => ⟨ns, bareName name⟩
      | [i] => some i.typeName
      | _ => none := by
  have hfilter : (w.usePaths.filter fun p => p.names.getLast?.map bareName == some (bareName name))
      = (importsOf w.imports name).map fun i => i.1.pathTo i.2 := by
    rw [usePaths, List.filter_map, importsOf]
    congr 2
    funext i
    simp [Namespace.pathTo]
  simp only [Source.Path.ofName, identified?, hfilter]
  rcases hsame : importsOf w.imports name with _ | ⟨i, _ | ⟨j, rest⟩⟩
  · rfl
  · have hi : i ∈ w.imports := (mem_importsOf.mp (hsame ▸ List.mem_singleton_self i)).1
    exact (hglobal i hi).itself?_pathTo i.2
  · rfl

/-- A marked name takes a name of the prelude: with the import of `r#String` alone, `String` as it is
    written is the text of the prelude, and as an identifier it is what is imported. -/
example :
    let w : Wrapper :=
      { home := .ofSegments ["crate", "ui"], root := "Page", name := "PageStore", layout := .module,
        modifier := "", runtime := defaultRuntimePath,
        imports := [(.ofSegments ["crate", "ui"], "r#String")], mutators := [], keepsOthers := false }
    w.meaning (.ofName "String") = some ⟨.ofSegments ["std", "string"], "String"⟩ ∧
      w.identified? (.ofName "String") = some ⟨.ofSegments ["crate", "ui"], "r#String"⟩ := by
  decide

end Wrapper

/-! ## Written types -/

namespace StoreDescription

variable {d : StoreDescription} {s : Shape} {runtime : String}

/-- Under the identifier of a type nothing but the type itself is imported, and only once. -/
def BindsOnly (d : StoreDescription) (s : Shape) : Prop :=
  ∀ i ∈ importsOf d.imports s.name,
    importsOf d.imports s.name = [i] ∧ i.typeName.bare = s.typeName.bare

/-- What has a simple name without an import is a type of the prelude. -/
theorem prelude_of_nameable {home : Namespace} {name : String}
    (h : d.nameable .module home name = true) (hnone : importsOf d.imports name = []) :
    Prelude.home? name = some home := by
  rw [nameable, Bool.or_eq_true] at h
  refine Prelude.covers_iff.mp (h.resolve_right fun himported => ?_)
  have hin : (home, name) ∈ importsOf d.imports name :=
    mem_importsOf.mpr ⟨List.contains_iff_mem.mp himported, rfl⟩
  rw [hnone] at hin
  cases hin

/-- **What a written type stands for as an identifier.** In the root's own file it is the type itself,
    unless the type is written by a simple name that does not bind it alone. -/
theorem identified?_written (hhome : d.home.Global) (hshapes : ∀ s ∈ d.shapes, s.home.Global)
    (hs : s ∈ d.shapes) :
    ((Wrapper.ofDescription d ⟨runtime, .module⟩).identified? (d.written .module s).path).map
        TypeName.bare = some s.typeName.bare ↔
      (d.nameable .module s.home s.name = true → d.BindsOnly s) := by
  have himports : ∀ i ∈ d.imports, i.1.Global := fun i => import_global hhome hshapes
  have hglobal : s.home.Global := hshapes s hs
  obtain ⟨home, name, args⟩ := s
  simp only [BindsOnly, Shape.typeName, Shape.home, Shape.name] at hglobal ⊢
  cases hn : d.nameable .module home name with
  | false =>
      have hpath : (d.written .module (.mk home name args)).path = home.pathTo name := by
        simp [written, hn, WrittenType.path]
      rw [hpath, Wrapper.identified?_pathTo _ hglobal]
      simp
  | true =>
      have hpath : (d.written .module (.mk home name args)).path = .ofName name := by
        simp [written, hn, WrittenType.path]
      have hread : (Wrapper.ofDescription d ⟨runtime, .module⟩).imports = d.imports := rfl
      rw [hpath, Wrapper.identified?_ofName himports, hread]
      rcases hsame : importsOf d.imports name with _ | ⟨i, _ | ⟨j, rest⟩⟩
      · have hprelude := prelude_of_nameable hn hsame
        simp [Prelude.bareName_of_home? hprelude, hprelude]
      · simp
      · -- of two imports neither is the only one, and the name stands for neither
        refine iff_of_false (fun hnone => by cases hnone) fun honly => ?_
        have hsingle := (honly rfl i List.mem_cons_self).1
        cases (List.cons.inj hsingle).2

end StoreDescription

end ObservableStore
