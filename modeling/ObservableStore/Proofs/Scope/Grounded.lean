import ObservableStore.Proofs.Outcome
import ObservableStore.Root

/-!
# `Proofs.Scope.Grounded` — what a strict scope resolves holds everywhere

A strict scope never keeps a path as it is written: what it cannot account for it refuses. So each
namespace that it gives a type is a path from the root of a crate, with at least one segment, and
means the same in every module (`Namespace.Global`).

`Scope.Grounded` is the invariant of the scope behind this: its own namespace and all that it
imports are such paths. It is kept by every item that is added (`Grounded.addItem`), so the scope of
a module has it (`grounded_ofItems`), and then every path that resolves (`Grounded.resolve`) and
every type inside a shape (`Grounded.shapeOf`) has a namespace that holds everywhere.
-/

namespace ObservableStore

/-- A path that means the same in every module. -/
structure Namespace.Global (ns : Namespace) : Prop where
  nonempty : ns.segments ≠ []
  everywhere : ns.asWritten = false

theorem Namespace.Global.eq_ofSegments {ns : Namespace} (h : ns.Global) :
    Namespace.ofSegments ns.segments = ns := by
  cases ns with
  | mk segments asWritten =>
      obtain rfl : asWritten = false := h.everywhere
      rfl

theorem Namespace.global_ofSegments {segments : List String} (h : segments ≠ []) :
    (Namespace.ofSegments segments).Global := ⟨h, rfl⟩

/-- The namespaces of the prelude hold everywhere. -/
theorem Prelude.global_of_home? {name : String} {ns : Namespace}
    (h : Prelude.home? name = some ns) : ns.Global := by
  unfold Prelude.home? at h
  split at h
  · obtain rfl := Option.some.inj h
    exact ⟨by decide, rfl⟩
  · split at h <;> simp only [Option.some.injEq, reduceCtorEq] at h <;> subst h <;>
      exact Namespace.global_ofSegments (by decide)

namespace Scope

/-- A scope of the module `home` that refuses what it does not know and knows only paths that hold
    everywhere. -/
structure Grounded (home : Namespace) (s : Scope) : Prop where
  strict : s.strict = true
  here : s.home = home
  everywhere : home.Global
  imports : ∀ {name full}, s.imported? name = some full → full ≠ []
  globs : ∀ ns ∈ s.globs, ns.Global

variable {home : Namespace} {s : Scope}

theorem Grounded.home_global (hs : Grounded home s) : s.home.Global := hs.here ▸ hs.everywhere

theorem grounded_strictly (h : home.Global) : Grounded home (strictly home) where
  strict := rfl
  here := rfl
  everywhere := h
  imports hfull := by cases hfull
  globs ns hns := by cases hns

/-! ## Absolute paths -/

theorem parent?_nonempty {ns up : Namespace} (h : ns.parent? = some up) : up.segments ≠ [] := by
  unfold Namespace.parent? at h
  split at h
  · obtain rfl := Option.some.inj h
    decide
  · split at h
    · obtain rfl := Option.some.inj h
      simp
    · split at h
      · cases h
      · cases h
      · next hone =>
          obtain rfl := Option.some.inj h
          intro hnil
          rcases hs : ns.segments with _ | ⟨a, _ | ⟨b, rest⟩⟩
          · simp_all
          · exact hone a hs
          · simp [hs] at hnil

/-- Going up from a namespace never ends in the empty path. -/
theorem ascend_nonempty {path full : List String} {ns : Namespace}
    (hns : ns.segments ≠ []) (h : ascend home ns path = .ok full) : full ≠ [] := by
  induction path generalizing ns with
  | nil =>
      obtain rfl := Except.ok.inj h
      exact hns
  | cons first rest ih =>
      simp only [ascend] at h
      split at h
      · cases hup : ns.parent? with
        | none =>
            rw [hup] at h
            cases h
        | some up =>
            rw [hup] at h
            exact ih (parent?_nonempty hup) h
      · obtain rfl := Except.ok.inj h
        simp

/-- A path of a grounded scope has an absolute path with at least one segment. -/
theorem Grounded.absolute (hs : Grounded home s) {path full : List String}
    (h : s.absolute path = .ok full) : full ≠ [] := by
  cases path with
  | nil => cases h
  | cons first rest =>
      simp only [Scope.absolute] at h
      -- the cases are the words that a path can begin with: `crate`, `self`, `super`, a module of
      -- the scope, an imported name, and anything else
      split at h
      · obtain rfl := Except.ok.inj h
        simp
      split at h
      · obtain rfl := Except.ok.inj h
        simp [hs.home_global.nonempty]
      split at h
      · exact ascend_nonempty hs.home_global.nonempty h
      split at h
      · obtain rfl := Except.ok.inj h
        simp
      · cases hi : s.imported? first with
        | none =>
            rw [hi] at h
            obtain rfl := Except.ok.inj h
            simp
        | some found =>
            rw [hi] at h
            obtain rfl := Except.ok.inj h
            simp [hs.imports hi]

/-! ## Growing a scope -/

theorem Grounded.addType (hs : Grounded home s) (name : String) : Grounded home (s.addType name) :=
  ⟨hs.strict, hs.here, hs.everywhere, hs.imports, hs.globs⟩

theorem Grounded.addModule (hs : Grounded home s) (name : String) : Grounded home (s.addModule name) :=
  ⟨hs.strict, hs.here, hs.everywhere, hs.imports, hs.globs⟩

theorem Grounded.addImport (hs : Grounded home s) (given : String) (path : List String) :
    Grounded home (s.addImport given path) := by
  unfold Scope.addImport
  cases hp : s.absolute path with
  | error e => exact hs
  | ok full =>
      refine ⟨hs.strict, hs.here, hs.everywhere, ?_, hs.globs⟩
      intro name found hfound
      simp only [imported?, List.lookup_cons] at hfound
      split at hfound
      · obtain rfl := Option.some.inj hfound
        exact hs.absolute hp
      · exact hs.imports hfound

theorem Grounded.addGlob (hs : Grounded home s) (path : List String) : Grounded home (s.addGlob path) := by
  unfold Scope.addGlob
  cases hp : s.absolute path with
  | error e => exact hs
  | ok full =>
      refine ⟨hs.strict, hs.here, hs.everywhere, hs.imports, ?_⟩
      intro ns hns
      rcases List.mem_append.mp hns with hold | hnew
      · exact hs.globs ns hold
      · rw [List.mem_singleton.mp hnew]
        exact Namespace.global_ofSegments (hs.absolute hp)

mutual

/-- The imports of a tree keep a scope grounded. -/
theorem Grounded.addUse {s : Scope} (hs : Grounded home s) (above : List String) :
    (tree : Source.UseTree) → Grounded home (s.addUse above tree)
  | .path name tree => by
      rw [Scope.addUse]
      exact hs.addUse _ tree
  | .name name => by
      rw [Scope.addUse]
      split
      · split
        · exact hs.addImport _ _
        · exact hs
      · exact hs.addImport _ _
  | .rename name given => by
      rw [Scope.addUse]
      split
      · exact hs
      · exact hs.addImport _ _
  | .glob => by
      rw [Scope.addUse]
      exact hs.addGlob _
  | .group trees => by
      rw [Scope.addUse]
      exact hs.addUses _ trees

/-- So do those of several trees. -/
theorem Grounded.addUses {s : Scope} (hs : Grounded home s) (above : List String) :
    (trees : List Source.UseTree) → Grounded home (s.addUses above trees)
  | [] => by
      rw [Scope.addUses]
      exact hs
  | tree :: rest => by
      rw [Scope.addUses]
      exact (hs.addUse above tree).addUses above rest

end

theorem Grounded.addRoot (hs : Grounded home s) (item : Source.Item) : Grounded home (s.addRoot item) := by
  cases item with
  | module name content => exact hs.addModule name
  | externCrate name given =>
      simp only [Scope.addRoot]
      split
      · exact hs
      · exact hs.addImport _ _
  | _ => exact hs

theorem Grounded.addItem (hs : Grounded home s) (item : Source.Item) : Grounded home (s.addItem item) := by
  cases item with
  | declaration d => exact hs.addType _
  | typeAlias name => exact hs.addType _
  | trait name => exact hs.addType _
  | use rooted tree => exact hs.addUse [] tree
  | _ => exact hs

/-- **The scope of a module is grounded.** -/
theorem grounded_ofItems (h : home.Global) (items : List Source.Item) :
    Grounded home (ofItems home items) := by
  -- modules and external crates come first, since imports go through them
  have hroots : Grounded home (items.foldl addRoot (strictly home)) :=
    List.foldlRecOn items addRoot (grounded_strictly h) fun _ hs item _ => hs.addRoot item
  exact List.foldlRecOn items addItem hroots fun _ hs item _ => hs.addItem item

/-! ## Resolution -/

theorem global_of_split {segments : List String} {t : TypeName} (h : split segments = .ok t) :
    t.home.Global := by
  unfold split at h
  split at h
  · cases h
  · split at h
    · cases h
    · next hne =>
        obtain rfl := Except.ok.inj h
        exact Namespace.global_ofSegments (by simpa using hne)

theorem Grounded.resolveName (hs : Grounded home s) {name : String} {t : TypeName}
    (h : s.resolveName name = .ok t) : t.home.Global := by
  unfold Scope.resolveName at h
  split at h
  · obtain rfl := Except.ok.inj h
    exact hs.home_global
  cases hi : s.imported? name with
  | some full =>
      rw [hi] at h
      exact global_of_split h
  | none =>
      rw [hi] at h
      cases hp : Prelude.home? name with
      | some ns =>
          rw [hp] at h
          obtain rfl := Except.ok.inj h
          exact Prelude.global_of_home? hp
      | none =>
          simp only [hp] at h
          split at h
          · next glob hglobs =>
              obtain rfl := Except.ok.inj h
              exact hs.globs glob (by simp [hglobs])
          · -- a strict scope refuses the name here
            rw [hs.strict] at h
            simp only [Bool.not_true, Bool.false_eq_true, if_false] at h
            split at h <;> cases h

/-- **What resolves holds everywhere.** -/
theorem Grounded.resolve (hs : Grounded home s) {p : Source.Path} {t : TypeName}
    (h : s.resolve p = .ok t) : t.home.Global := by
  unfold Scope.resolve at h
  split at h
  · exact global_of_split h
  · split at h
    · cases h
    · exact hs.resolveName h
    · simp only [hs.strict, Bool.not_true, Bool.false_and, Bool.false_eq_true, if_false] at h
      obtain ⟨full, -, hsplit⟩ := bind_eq_ok.mp h
      exact global_of_split hsplit

end Scope

namespace Root

open Scope

variable {home : Namespace} {s : Scope} {self : TypeName}

mutual

/-- **Every type inside a shape has a namespace that holds everywhere.** -/
theorem global_of_shapeOf (hs : Grounded home s) (hself : self.home.Global) :
    (t : Source.TypeExpr) → {shape : Shape} → shapeOf self s t = .ok shape →
      ∀ x ∈ shape.walk, x.home.Global
  | .paren t, shape, h => by
      rw [shapeOf] at h
      exact global_of_shapeOf hs hself t h
  | .itself, shape, h => by
      rw [shapeOf] at h
      obtain rfl := Except.ok.inj h
      intro x hx
      obtain rfl : x = .mk self.home self.name [] := by simpa [Shape.walk] using hx
      exact hself
  | .path p args, shape, h => by
      rw [shapeOf] at h
      split at h
      · next t ht =>
          obtain ⟨shapes, hshapes, rfl⟩ := map_eq_ok.mp h
          intro x hx
          rw [Shape.walk, List.mem_cons] at hx
          rcases hx with rfl | hx
          · exact hs.resolve ht
          · obtain ⟨_, hwalk, hx⟩ := List.mem_flatten.mp hx
            obtain ⟨arg, harg, rfl⟩ := List.mem_map.mp hwalk
            exact global_of_shapesOf hs hself args hshapes arg harg x hx
      · cases h
  | .call p, shape, h => by
      rw [shapeOf] at h
      split at h <;> cases h
  | .other f, shape, h => by
      rw [shapeOf] at h
      cases h

/-- So has every type inside the shapes of type arguments. -/
theorem global_of_shapesOf (hs : Grounded home s) (hself : self.home.Global) :
    (args : List Source.Argument) → {shapes : List Shape} → shapesOf self s args = .ok shapes →
      ∀ shape ∈ shapes, ∀ x ∈ shape.walk, x.home.Global
  | [], shapes, h => by
      rw [shapesOf] at h
      obtain rfl := Except.ok.inj h
      intro shape hshape
      cases hshape
  | .type t :: rest, shapes, h => by
      rw [shapesOf] at h
      obtain ⟨first, hfirst, h⟩ := bind_eq_ok.mp h
      obtain ⟨others, hothers, h⟩ := bind_eq_ok.mp h
      obtain rfl := Except.ok.inj h
      intro shape hshape
      rcases List.mem_cons.mp hshape with rfl | hshape
      · exact global_of_shapeOf hs hself t hfirst
      · exact global_of_shapesOf hs hself rest hothers shape hshape
  | .lifetime :: rest, shapes, h => by
      rw [shapesOf] at h
      cases h
  | .other written :: rest, shapes, h => by
      rw [shapesOf] at h
      cases h

end

end Root

end ObservableStore
