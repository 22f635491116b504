import ObservableStore.Proofs.Wrapper.InlineTypes
import ObservableStore.Proofs.Wrapper.MethodNames

/-!
# `Proofs.Alone` — what is described in its module is described alone

A declaration is described with what is known of its module, or alone. Alone it is described whenever
it is described in a module, whatever that module declares, imports and is called
(`describe_alone`): with the same fields and hence the same mutators, and with types of the same
outline, though the types of a field may have other names and namespaces.

Shape of the argument. Both ways take the same path through the declaration and part only where a path
is resolved. What resolves anywhere is no empty path and no single name behind `::`
(`resolve_form`), and what is neither resolves alone (`resolve_alone`): a name is a type of the
prelude or of the module itself, and a chain of `super` has no crate whose root it could leave.
-/

namespace ObservableStore

/-! ## Outlines -/

/-- The tree of the arguments of a type, whatever the types in it are called. -/
inductive Outline where
  | node (arguments : List Outline)

mutual

/-- The outline of a shape. -/
def Shape.outline : Shape → Outline
  | .mk _ _ args => .node (Shape.outlines args)

/-- The outlines of arguments. -/
def Shape.outlines : List Shape → List Outline
  | [] => []
  | shape :: rest => shape.outline :: Shape.outlines rest

end

/-! ## Paths -/

namespace Scope

variable {s : Scope} {p : Source.Path} {t : TypeName}

/-- A path that can stand for a type: there is a name, and behind `::` there is a module in front of
    it. -/
structure NamesType (p : Source.Path) : Prop where
  nonempty : p.names ≠ []
  inModule : p.rooted = true → 2 ≤ p.names.length

theorem split_long {names : List String} (h : split names = .ok t) : 2 ≤ names.length := by
  obtain ⟨home, name⟩ := t
  obtain ⟨rfl, hne, -⟩ := split_eq_ok h
  have hpos : 0 < home.segments.length := List.length_pos_of_ne_nil hne
  simp only [List.length_append, List.length_cons, List.length_nil]
  omega

theorem split_ok {names : List String} (h : 2 ≤ names.length) : ∃ t, split names = .ok t := by
  rcases List.eq_nil_or_concat names with rfl | ⟨init, last, rfl⟩
  · simp at h
  · have hinit : init ≠ [] := by
      rintro rfl
      simp at h
    exact ⟨_, by rw [List.concat_eq_append, split_concat _ _ hinit]⟩

/-- What resolves in some scope can stand for a type. -/
theorem resolve_form (h : s.resolve p = .ok t) : NamesType p := by
  obtain ⟨rooted, names⟩ := p
  cases rooted with
  | true =>
      have hlong : 2 ≤ names.length := split_long h
      refine ⟨?_, fun _ => hlong⟩
      rintro rfl
      simp at hlong
  | false =>
      refine ⟨?_, fun hrooted => absurd hrooted Bool.false_ne_true⟩
      rintro rfl
      cases h

/-- **What can stand for a type resolves alone.** -/
theorem resolve_alone (h : NamesType p) : ∃ t, (lenient .here).resolve p = .ok t := by
  obtain ⟨rooted, names⟩ := p
  cases rooted with
  | true => exact split_ok (h.inModule rfl)
  | false =>
      rcases names with _ | ⟨first, _ | ⟨second, rest⟩⟩
      · exact absurd rfl h.nonempty
      · exact ⟨_, resolveName_here first⟩
      · have hlong : 2 ≤ (first :: second :: rest).length := by simp
        obtain ⟨t, ht⟩ := split_ok hlong
        rw [resolve_path_here, ht]
        -- a path with a beginning that is not known is kept as it is written
        cases Namespace.isRelativeWord first with
        | true => exact ⟨t, rfl⟩
        | false => exact ⟨_, rfl⟩

end Scope

/-! ## Types -/

namespace Root

variable {s : Scope} {self self' : TypeName}

mutual

/-- **A type that has a shape in some scope has one alone**, with the same outline. -/
theorem shapeOf_alone : (t : Source.TypeExpr) → {shape : Shape} → shapeOf self s t = .ok shape →
    ∃ shape', shapeOf self' (.lenient .here) t = .ok shape' ∧ shape'.outline = shape.outline
  | .paren t, shape, h => by
      rw [shapeOf] at h ⊢
      exact shapeOf_alone t h
  | .itself, shape, h => by
      rw [shapeOf] at h
      obtain rfl := Except.ok.inj h
      exact ⟨_, shapeOf.eq_2 .., rfl⟩
  | .path p args, shape, h => by
      rw [shapeOf] at h
      split at h
      · next t ht =>
          obtain ⟨shapes, hshapes, rfl⟩ := map_eq_ok.mp h
          obtain ⟨t', ht'⟩ := Scope.resolve_alone (Scope.resolve_form ht)
          obtain ⟨shapes', hshapes', houtlines⟩ := shapesOf_alone args hshapes
          refine ⟨.mk t'.home t'.name shapes', ?_, congrArg Outline.node houtlines⟩
          rw [shapeOf, ht', hshapes']
          rfl
      · cases h
  | .call p, shape, h => by
      rw [shapeOf] at h
      split at h <;> cases h
  | .other f, shape, h => by
      rw [shapeOf] at h
      cases h

/-- So have type arguments. -/
theorem shapesOf_alone : (args : List Source.Argument) → {shapes : List Shape} →
    shapesOf self s args = .ok shapes →
    ∃ shapes', shapesOf self' (.lenient .here) args = .ok shapes' ∧
      Shape.outlines shapes' = Shape.outlines shapes
  | [], shapes, h => by
      rw [shapesOf] at h
      obtain rfl := Except.ok.inj h
      exact ⟨[], shapesOf.eq_1 .., rfl⟩
  | .type t :: rest, shapes, h => by
      rw [shapesOf] at h
      obtain ⟨first, hfirst, h⟩ := bind_eq_ok.mp h
      obtain ⟨others, hothers, h⟩ := bind_eq_ok.mp h
      obtain rfl := Except.ok.inj h
      obtain ⟨first', hfirst', houtline⟩ := shapeOf_alone t hfirst
      obtain ⟨others', hothers', houtlines⟩ := shapesOf_alone rest hothers
      refine ⟨first' :: others', ?_, congrArg₂ List.cons houtline houtlines⟩
      rw [shapesOf]
      exact bind_eq_ok.mpr ⟨first', hfirst', bind_eq_ok.mpr ⟨others', hothers', rfl⟩⟩
  | .lifetime :: rest, shapes, h => by
      rw [shapesOf] at h
      cases h
  | .other written :: rest, shapes, h => by
      rw [shapesOf] at h
      cases h

end

/-! ## Fields -/

variable {r : Root} {d : StoreDescription}

theorem describeField_alone {f : Source.Field} {fd : FieldDescription}
    (h : r.describeField f = .ok fd) :
    ∃ fd', (alone r.declaration).describeField f = .ok fd' ∧ fd'.name = fd.name ∧
      fd'.shape.outline = fd.shape.outline := by
  obtain ⟨hname, hfree⟩ := describeField_name h
  obtain ⟨shape, hshape, houtline⟩ := shapeOf_alone f.type (describeField_ok h)
  refine ⟨⟨f.name, shape⟩, ?_, hname.symm, houtline⟩
  have hshape' : shapeOf ⟨(alone r.declaration).home, (alone r.declaration).name⟩
      (alone r.declaration).scope f.type = .ok shape := hshape
  rw [describeField, if_neg hfree, hshape']

/-- Fields that are described in a module are described alone, one by one. -/
theorem describeFields_alone {fs : List Source.Field} {ds : List FieldDescription}
    (h : r.describeFields fs = .ok ds) :
    ∃ ds', (alone r.declaration).describeFields fs = .ok ds' ∧
      ds'.map (fun f => (f.name, f.shape.outline)) = ds.map (fun f => (f.name, f.shape.outline)) := by
  rw [describeFields_eq_ok] at h
  induction h with
  | nil => exact ⟨[], rfl, rfl⟩
  | @cons f fd fs ds hf _ ih =>
      obtain ⟨fd', hfd', hname, houtline⟩ := describeField_alone hf
      obtain ⟨ds', hds', hsame⟩ := ih
      refine ⟨fd' :: ds', ?_, ?_⟩
      · rw [describeFields_eq_ok] at hds' ⊢
        exact .cons hfd' hds'
      · rw [List.map_cons, List.map_cons, hname, houtline, hsame]

/-- Whether a field has the name of an awaiting mutator depends on the names of the fields only. -/
theorem mutatorCollision?_eq_none_iff {ds : List FieldDescription} :
    mutatorCollision? ds = none ↔
      ∀ n ∈ ds.map FieldDescription.name, ∀ m ∈ ds.map FieldDescription.name,
        awaitingMutatorName m ≠ n := by
  simp [mutatorCollision?, FieldDescription.awaitingMutator]

/-- A declaration without generic parameters whose fields can be described has a description. -/
theorem describe_of_fields {fs : List Source.Field} {ds : List FieldDescription}
    (hgeneric : r.declaration.generic = false) (hfs : fieldsOf r.declaration.body = .ok fs)
    (hds : r.describeFields fs = .ok ds) (hnone : mutatorCollision? ds = none) :
    r.describe = .ok ⟨r.origin, r.home, r.name, r.declaration.modifier.visibility, ds⟩ := by
  have hbody : r.describeBody = .ok ds := by
    rw [describeBody, hgeneric, if_neg Bool.false_ne_true, hfs]
    refine bind_eq_ok.mpr ⟨ds, hds, ?_⟩
    rw [hnone]
    rfl
  rw [describe, hbody]

theorem visibility_of_describe (h : r.describe = .ok d) :
    d.visibility = r.declaration.modifier.visibility := by
  unfold describe at h
  split at h
  · obtain rfl := Except.ok.inj h
    rfl
  · cases h

/-! ## Descriptions -/

/-- **What is described in a module is described alone.** Whatever the scope of a declaration is, if
    the declaration has a description there, it has one alone: with the same name and visibility,
    the same names of fields in the same order, and for every field a type of the same outline. So
    the two wrappers have the same methods in the same order, however they are written. -/
theorem describe_alone (r : Root) (h : r.describe = .ok d) :
    ∃ d', (alone r.declaration).describe = .ok d' ∧
      d'.root = d.root ∧ d'.visibility = d.visibility ∧
      d'.fields.map (fun f => (f.name, f.shape.outline))
        = d.fields.map (fun f => (f.name, f.shape.outline)) ∧
      ∀ o o', (Wrapper.ofDescription d' o').methodNames = (Wrapper.ofDescription d o).methodNames := by
  obtain ⟨hbody, -, -, hroot⟩ := describe_ok h
  obtain ⟨fs, hfs, hds⟩ := describeBody_ok hbody
  obtain ⟨ds', hds', hsame⟩ := describeFields_alone hds
  have hnames : ds'.map FieldDescription.name = d.fields.map FieldDescription.name := by
    have hfst := congrArg (List.map Prod.fst) hsame
    simpa [List.map_map, Function.comp_def] using hfst
  have hnone : mutatorCollision? ds' = none := by
    rw [mutatorCollision?_eq_none_iff, hnames, ← mutatorCollision?_eq_none_iff]
    exact describeBody_separate hbody
  have hgeneric : r.declaration.generic = false := not_generic_of_describeBody hbody
  refine ⟨_, describe_of_fields hgeneric hfs hds' hnone, hroot.symm,
    (visibility_of_describe h).symm, hsame, ?_⟩
  intro o o'
  rw [Wrapper.methodNames_ofDescription, Wrapper.methodNames_ofDescription, hnames]

/-- A sheet in the module `crate::ui::sheets`, which declares `parts`, imports a row of it under another
    name and all of another module. Its fields go through each of these, out of the module, to an
    external crate, and back to the sheet itself. -/
def sheetRoot : Root where
  declaration :=
    let path (names : List String) (args : List Source.TypeExpr) : Source.TypeExpr :=
      .path ⟨false, names⟩ (args.map .type)
    ⟨[], .pub, "Sheet", false, .named
      [⟨"rows", path ["Vec"] [path ["Line"] []], []⟩,
        ⟨"cells", path ["std", "collections", "HashMap"]
          [path ["String"] [], path ["Option"] [path ["parts", "Cell"] []]], []⟩,
        ⟨"theme", path ["super", "super", "Theme"] [], []⟩,
        ⟨"next", path ["Box"] [.itself], []⟩,
        ⟨"grid", path ["Grid"] [], []⟩]⟩
  scope := .ofItems (.ofSegments ["crate", "ui", "sheets"])
    [.module "parts" none, .use false (.path "parts" (.rename "Row" "Line")),
      .use false (.path "super" (.path "grids" .glob))]
  origin := .detached

/-- In its module the theme and the grid of the sheet are types of other modules of the crate; alone
    the theme is kept two modules further out and the grid is a type of the module itself. The
    outlines are the same. -/
theorem describe_alone_sheet : ∃ d d', sheetRoot.describe = .ok d ∧
    (alone sheetRoot.declaration).describe = .ok d' ∧
    d.fields.map (fun f => f.shape.home.segments) =
      [["std", "vec"], ["std", "collections"], ["crate"], ["std", "boxed"], ["crate", "ui", "grids"]] ∧
    d'.fields.map (fun f => f.shape.home.segments) =
      [["std", "vec"], ["std", "collections"], ["super", "super"], ["std", "boxed"], ["self"]] ∧
    d'.fields.map (fun f => (f.name, f.shape.outline)) =
      [("rows", .node [.node []]), ("cells", .node [.node [], .node [.node []]]),
        ("theme", .node []), ("next", .node [.node []]), ("grid", .node [])] := by
  obtain ⟨d, hd, hhomes, houtlines⟩ : ∃ d, sheetRoot.describe = .ok d ∧
      d.fields.map (fun f => f.shape.home.segments) =
        [["std", "vec"], ["std", "collections"], ["crate"], ["std", "boxed"],
          ["crate", "ui", "grids"]] ∧
      d.fields.map (fun f => (f.name, f.shape.outline)) =
        [("rows", .node [.node []]), ("cells", .node [.node [], .node [.node []]]),
          ("theme", .node []), ("next", .node [.node []]), ("grid", .node [])] := by
    refine ⟨_, rfl, ?_, ?_⟩
    · rfl
    · rfl
  have hhomes' : (alone sheetRoot.declaration).describe.toOption.map
      (fun d => d.fields.map fun f => f.shape.home.segments) =
        some [["std", "vec"], ["std", "collections"], ["super", "super"], ["std", "boxed"],
          ["self"]] := rfl
  obtain ⟨d', hd', -, -, hsame, -⟩ := describe_alone sheetRoot hd
  rw [hd'] at hhomes'
  exact ⟨d, d', hd, hd', hhomes, Option.some.inj hhomes', hsame.trans houtlines⟩

end Root

end ObservableStore
