import ObservableStore.Proofs.Shape.Rendered

/-!
# `Proofs.Acceptance` — which declarations have a description, and what rules the others out

A type stands for a shape (`Denotes`) if it is the root itself or a path that the scope resolves, whose
arguments, if there are any, are such types again; parentheses around it do not count. A declaration is
accepted (`Accepted`) if it has no generic parameters, is built from named fields or from none, and
these have types that stand for shapes, none the name of the accessor, and none the name of the awaiting
mutator of another one. Just these declarations have a description, and the description has a field for
each of theirs (`describe_iff`).

What rules a declaration out is what comes first in a fixed order (`RuledOut`): generic parameters, the
kind of the declaration, then field by field a reserved name before a type that stands for nothing, and
last the first field with the name of an awaiting mutator.

Shape of the argument. Each function on the way gets the two facts that callers need: when it succeeds
and with what (`..._eq_ok`), and when it fails and why (`..._eq_error`).
-/

namespace ObservableStore

/-! ## Declarations -/

/-- A body has the given named fields; a unit has none. -/
def Source.Body.BuiltFrom (b : Source.Body) (fs : List Source.Field) : Prop :=
  b = .named fs ∨ (b = .unit ∧ fs = [])

/-- The bodies that have no constructor by named fields. -/
def ConstructorGap.body : ConstructorGap → Source.Body
  | .tuple => .tuple
  | .enumeration => .enumeration
  | .union => .union

/-- A field has the name of the awaiting mutator of another one. -/
def Source.Field.Collides (f : Source.Field) (fs : List Source.Field) : Prop :=
  ∃ g ∈ fs, g.name ≠ f.name ∧ f.name = awaitingMutatorName g.name

namespace Root

/-! ## What types stand for -/

/-- A type as written stands for a shape, where `self` is the type that is being declared. -/
inductive Denotes (self : TypeName) (s : Scope) : Source.TypeExpr → Shape → Prop
  | itself : Denotes self s .itself (.mk self.home self.name [])
  | paren {t : Source.TypeExpr} {shape : Shape} (h : Denotes self s t shape) :
      Denotes self s (.paren t) shape
  /-- The path resolves, and its arguments are types that stand for shapes. -/
  | path {p : Source.Path} {name : TypeName} {ts : List Source.TypeExpr} {shapes : List Shape}
      (hpath : s.resolve p = .ok name) (hargs : List.Forall₂ (Denotes self s) ts shapes) :
      Denotes self s (.path p (ts.map .type)) (.mk name.home name.name shapes)

variable {self : TypeName} {s : Scope}

mutual

/-- **The shape of a type** is what it stands for. -/
theorem shapeOf_eq_ok_iff : (t : Source.TypeExpr) → {shape : Shape} →
    (shapeOf self s t = .ok shape ↔ Denotes self s t shape)
  | .itself, shape => by
      rw [shapeOf]
      constructor
      · intro h
        obtain rfl := Except.ok.inj h
        exact .itself
      · rintro ⟨⟩
        rfl
  | .paren t, shape => by
      rw [shapeOf, shapeOf_eq_ok_iff t]
      constructor
      · exact .paren
      · rintro (_ | h)
        exact h
  | .path p args, shape => by
      rw [shapeOf]
      constructor
      · intro h
        split at h
        · next name hname =>
            obtain ⟨shapes, hshapes, rfl⟩ := map_eq_ok.mp h
            obtain ⟨ts, rfl, hargs⟩ := (shapesOf_eq_ok_iff args).mp hshapes
            exact .path hname hargs
        · cases h
      · intro h
        cases h with
        | @path _ name ts shapes hpath hargs =>
            rw [hpath]
            exact map_eq_ok.mpr ⟨shapes, (shapesOf_eq_ok_iff _).mpr ⟨ts, rfl, hargs⟩, rfl⟩
  | .call p, shape => by
      rw [shapeOf]
      constructor
      · intro h
        split at h <;> cases h
      · rintro ⟨⟩
  | .other f, shape => by
      rw [shapeOf]
      constructor
      · intro h
        cases h
      · rintro ⟨⟩

/-- The shapes of arguments are what these stand for, which are types, all of them. -/
theorem shapesOf_eq_ok_iff : (args : List Source.Argument) → {shapes : List Shape} →
    (shapesOf self s args = .ok shapes ↔
      ∃ ts, args = ts.map .type ∧ List.Forall₂ (Denotes self s) ts shapes)
  | [], shapes => by
      rw [shapesOf]
      constructor
      · intro h
        obtain rfl := Except.ok.inj h
        exact ⟨[], rfl, .nil⟩
      · rintro ⟨ts, hts, hall⟩
        obtain rfl := List.map_eq_nil_iff.mp hts.symm
        cases hall
        rfl
  | .type t :: rest, shapes => by
      rw [shapesOf]
      constructor
      · intro h
        obtain ⟨first, hfirst, h⟩ := bind_eq_ok.mp h
        obtain ⟨others, hothers, h⟩ := bind_eq_ok.mp h
        obtain rfl := Except.ok.inj h
        obtain ⟨ts, rfl, hall⟩ := (shapesOf_eq_ok_iff rest).mp hothers
        exact ⟨t :: ts, rfl, .cons ((shapeOf_eq_ok_iff t).mp hfirst) hall⟩
      · rintro ⟨ts, hts, hall⟩
        cases hall with
        | nil => cases hts
        | @cons u first ts others hfirst hothers =>
            obtain ⟨⟨⟩, rfl⟩ := List.cons.inj hts
            refine bind_eq_ok.mpr ⟨first, (shapeOf_eq_ok_iff t).mpr hfirst, ?_⟩
            exact bind_eq_ok.mpr ⟨others, (shapesOf_eq_ok_iff _).mpr ⟨ts, rfl, hothers⟩, rfl⟩
  | .lifetime :: rest, shapes => by
      rw [shapesOf]
      constructor
      · intro h
        cases h
      · rintro ⟨_ | ⟨t, ts⟩, hts, -⟩ <;> cases hts
  | .other written :: rest, shapes => by
      rw [shapesOf]
      constructor
      · intro h
        cases h
      · rintro ⟨_ | ⟨t, ts⟩, hts, -⟩ <;> cases hts

end

/-- A type that stands for nothing is refused for some reason. -/
theorem exists_refusal_iff {t : Source.TypeExpr} :
    (∃ reason, shapeOf self s t = .error reason) ↔ ¬ ∃ shape, Denotes self s t shape := by
  simp only [← shapeOf_eq_ok_iff]
  cases shapeOf self s t with
  | ok shape => simp
  | error reason => simp

/-! ## Accepted and refused declarations -/

/-- A type stands for a shape in the scope of a declaration. -/
abbrev TypeDenotes (r : Root) (t : Source.TypeExpr) (shape : Shape) : Prop :=
  Denotes ⟨r.home, r.name⟩ r.scope t shape

/-- A field has a free name and a type that stands for a shape. -/
structure Describable (r : Root) (f : Source.Field) : Prop where
  free : f.name ≠ "flow"
  type : ∃ shape, r.TypeDenotes f.type shape

/-- A declaration with these fields is accepted. -/
structure Accepted (r : Root) (fs : List Source.Field) : Prop where
  plain : r.declaration.generic = false
  fields : r.declaration.body.BuiltFrom fs
  describable : ∀ f ∈ fs, r.Describable f
  apart : ∀ f ∈ fs, ¬ f.Collides fs

/-- A declaration is ruled out, and this is the first cause. -/
inductive RuledOut (r : Root) : FailureCause → Prop
  | generic (h : r.declaration.generic = true) : RuledOut r (.unsupported .generic)
  | kind {gap : ConstructorGap} (hplain : r.declaration.generic = false)
      (hbody : r.declaration.body = gap.body) : RuledOut r (.missingConstructor gap)
  /-- All fields in front of this one are describable. -/
  | reserved {before after : List Source.Field} {f : Source.Field}
      (hplain : r.declaration.generic = false)
      (hfields : r.declaration.body.BuiltFrom (before ++ f :: after))
      (hbefore : ∀ g ∈ before, r.Describable g) (hname : f.name = "flow") :
      RuledOut r (.unsupported (.accessorName f.name))
  | type {before after : List Source.Field} {f : Source.Field} {reason : TypeRefusal}
      (hplain : r.declaration.generic = false)
      (hfields : r.declaration.body.BuiltFrom (before ++ f :: after))
      (hbefore : ∀ g ∈ before, r.Describable g) (hname : f.name ≠ "flow")
      (htype : ¬ ∃ shape, r.TypeDenotes f.type shape)
      (hreason : shapeOf ⟨r.home, r.name⟩ r.scope f.type = .error reason) :
      RuledOut r (.unresolvedType f.name (Token.textOfAll f.written) reason)
  /-- All fields are describable, and none in front of this one collides. -/
  | collision {before after : List Source.Field} {f : Source.Field}
      (hplain : r.declaration.generic = false)
      (hfields : r.declaration.body.BuiltFrom (before ++ f :: after))
      (hall : ∀ g ∈ before ++ f :: after, r.Describable g)
      (hbefore : ∀ g ∈ before, ¬ g.Collides (before ++ f :: after))
      (hcollides : f.Collides (before ++ f :: after)) :
      RuledOut r (.unsupported (.mutatorName f.name))

variable {r : Root} {f : Source.Field} {fs : List Source.Field} {fd : FieldDescription}
variable {ds : List FieldDescription} {cause : FailureCause}

/-! ## Bodies -/

theorem fieldsOf_eq_ok {b : Source.Body} : fieldsOf b = .ok fs ↔ b.BuiltFrom fs := by
  cases b <;> simp [fieldsOf, Source.Body.BuiltFrom, eq_comm]

theorem fieldsOf_eq_error {b : Source.Body} {gap : ConstructorGap} :
    fieldsOf b = .error gap ↔ b = gap.body := by
  cases b <;> cases gap <;> simp [fieldsOf, ConstructorGap.body]

/-! ## Fields -/

theorem mem_reservedNames {name : String} : name ∈ reservedNames ↔ name = "flow" :=
  List.mem_singleton

theorem describeField_eq_ok : r.describeField f = .ok fd ↔
    f.name ≠ "flow" ∧ fd.name = f.name ∧ r.TypeDenotes f.type fd.shape := by
  rw [TypeDenotes, ← shapeOf_eq_ok_iff]
  constructor
  · intro h
    obtain ⟨hname, hfree⟩ := describeField_name h
    exact ⟨mt mem_reservedNames.mpr hfree, hname, describeField_ok h⟩
  · rintro ⟨hfree, hname, hshape⟩
    rw [describeField, if_neg (mt mem_reservedNames.mp hfree), hshape, ← hname]

theorem describeField_eq_error : r.describeField f = .error cause ↔
    (f.name = "flow" ∧ cause = .unsupported (.accessorName f.name)) ∨
      f.name ≠ "flow" ∧ ∃ reason, shapeOf ⟨r.home, r.name⟩ r.scope f.type = .error reason ∧
        cause = .unresolvedType f.name (Token.textOfAll f.written) reason := by
  rw [describeField]
  by_cases hflow : f.name = "flow"
  · rw [if_pos (mem_reservedNames.mpr hflow)]
    simp [hflow, eq_comm]
  · rw [if_neg (mt mem_reservedNames.mp hflow)]
    cases shapeOf ⟨r.home, r.name⟩ r.scope f.type with
    | ok shape => simp [hflow]
    | error reason => simp [hflow, eq_comm]

/-- A field has a description just if it is describable. -/
theorem describable_iff : r.Describable f ↔ ∃ fd, r.describeField f = .ok fd := by
  constructor
  · rintro ⟨hfree, shape, hshape⟩
    exact ⟨⟨f.name, shape⟩, describeField_eq_ok.mpr ⟨hfree, rfl, hshape⟩⟩
  · rintro ⟨fd, h⟩
    obtain ⟨hfree, -, hshape⟩ := describeField_eq_ok.mp h
    exact ⟨hfree, fd.shape, hshape⟩

/-- Fields fail at the first one that does. -/
theorem describeFields_eq_error : r.describeFields fs = .error cause ↔
    ∃ before f after, fs = before ++ f :: after ∧ (∀ g ∈ before, r.Describable g) ∧
      r.describeField f = .error cause := by
  induction fs with
  | nil =>
      constructor
      · intro h
        cases h
      · rintro ⟨before, f, after, hsplit, -⟩
        simp at hsplit
  | cons first rest ih =>
      rw [describeFields]
      constructor
      · intro h
        rcases bind_eq_error.mp h with hfirst | ⟨fd, hfd, h⟩
        · exact ⟨[], first, rest, rfl, fun g hg => absurd hg List.not_mem_nil, hfirst⟩
        · rcases bind_eq_error.mp h with hrest | ⟨ds, -, h⟩
          · obtain ⟨before, f, after, rfl, hbefore, hf⟩ := ih.mp hrest
            refine ⟨first :: before, f, after, rfl, fun g hg => ?_, hf⟩
            rcases List.mem_cons.mp hg with rfl | hg
            · exact describable_iff.mpr ⟨fd, hfd⟩
            · exact hbefore g hg
          · cases h
      · rintro ⟨_ | ⟨g, before⟩, f, after, hsplit, hbefore, hf⟩
        · obtain ⟨rfl, rfl⟩ := List.cons.inj hsplit
          exact bind_eq_error.mpr (Or.inl hf)
        · obtain ⟨rfl, rfl⟩ := List.cons.inj hsplit
          obtain ⟨fd, hfd⟩ := describable_iff.mp (hbefore first List.mem_cons_self)
          have hrest := ih.mpr ⟨before, f, after, rfl,
            fun g hg => hbefore g (List.mem_cons_of_mem first hg), hf⟩
          exact bind_eq_error.mpr (Or.inr ⟨fd, hfd, bind_eq_error.mpr (Or.inl hrest)⟩)

/-- Fields have descriptions just if all of them are describable. -/
theorem describeFields_isOk : (∃ ds, r.describeFields fs = .ok ds) ↔ ∀ f ∈ fs, r.Describable f := by
  constructor
  · rintro ⟨ds, hds⟩
    rw [describeFields_eq_ok] at hds
    induction hds with
    | nil => exact fun f hf => absurd hf List.not_mem_nil
    | @cons f fd fs ds hfd _ ih =>
        exact List.forall_mem_cons.mpr ⟨describable_iff.mpr ⟨fd, hfd⟩, ih⟩
  · intro hall
    cases hds : r.describeFields fs with
    | ok ds => exact ⟨ds, rfl⟩
    | error cause =>
        obtain ⟨before, f, after, rfl, -, hf⟩ := describeFields_eq_error.mp hds
        obtain ⟨fd, hfd⟩ := describable_iff.mp (hall f (by simp))
        cases hf.symm.trans hfd

/-! ## Collisions -/

/-- A field never has the name of its own awaiting mutator, so it collides with another one. -/
theorem collides_iff :
    f.Collides fs ↔ (fs.any fun g => awaitingMutatorName g.name == f.name) = true := by
  rw [List.any_eq_true]
  constructor
  · rintro ⟨g, hg, -, hname⟩
    exact ⟨g, hg, beq_iff_eq.mpr hname.symm⟩
  · rintro ⟨g, hg, hname⟩
    have heq : awaitingMutatorName g.name = f.name := beq_iff_eq.mp hname
    refine ⟨g, hg, fun hsame => ?_, heq.symm⟩
    rw [← hsame] at heq
    exact awaitingMutatorName_ne g.name heq

/-- The first field of a description that collides has the name of the first declared one. -/
theorem mutatorCollision?_name (hnames : ds.map FieldDescription.name = fs.map Source.Field.name) :
    (mutatorCollision? ds).map FieldDescription.name =
      (fs.find? fun f => fs.any fun g => awaitingMutatorName g.name == f.name).map
        Source.Field.name := by
  let collides (names : List String) (n : String) : Bool :=
    names.any fun m => awaitingMutatorName m == n
  have hds : mutatorCollision? ds =
      ds.find? (collides (ds.map FieldDescription.name) ∘ FieldDescription.name) := by
    simp [mutatorCollision?, collides, FieldDescription.awaitingMutator, Function.comp_def,
      List.any_map]
  have hfs : (fs.find? fun f => fs.any fun g => awaitingMutatorName g.name == f.name) =
      fs.find? (collides (fs.map Source.Field.name) ∘ Source.Field.name) := by
    simp [collides, Function.comp_def, List.any_map]
  rw [hds, hfs, ← List.find?_map, ← List.find?_map, hnames]

theorem mutatorCollision?_eq_none (hnames : ds.map FieldDescription.name = fs.map Source.Field.name) :
    mutatorCollision? ds = none ↔ ∀ f ∈ fs, ¬ f.Collides fs := by
  rw [← Option.map_eq_none_iff (f := FieldDescription.name), mutatorCollision?_name hnames,
    Option.map_eq_none_iff, List.find?_eq_none]
  simp only [collides_iff]

theorem mutatorCollision?_eq_some (hnames : ds.map FieldDescription.name = fs.map Source.Field.name)
    {name : String} : (mutatorCollision? ds).map FieldDescription.name = some name ↔
      ∃ before f after, fs = before ++ f :: after ∧ f.name = name ∧ f.Collides fs ∧
        ∀ g ∈ before, ¬ g.Collides fs := by
  rw [mutatorCollision?_name hnames, Option.map_eq_some_iff]
  simp only [List.find?_eq_some_iff_append, collides_iff, Bool.not_eq_true, Bool.not_eq_eq_eq_not,
    Bool.not_true]
  constructor
  · rintro ⟨f, ⟨hf, before, after, hsplit, hbefore⟩, rfl⟩
    exact ⟨before, f, after, hsplit, rfl, hf, hbefore⟩
  · rintro ⟨before, f, after, hsplit, rfl, hf, hbefore⟩
    exact ⟨f, ⟨hf, before, after, hsplit, hbefore⟩, rfl⟩

/-! ## Bodies of declarations -/

theorem describeBody_eq_ok : r.describeBody = .ok ds ↔
    ∃ fs, r.Accepted fs ∧ List.Forall₂ (fun f fd => r.describeField f = .ok fd) fs ds := by
  constructor
  · intro h
    obtain ⟨fs, hfs, hds⟩ := describeBody_ok h
    have hapart := (mutatorCollision?_eq_none (describeFields_names hds)).mp (describeBody_separate h)
    exact ⟨fs, ⟨not_generic_of_describeBody h, fieldsOf_eq_ok.mp hfs,
      describeFields_isOk.mp ⟨ds, hds⟩, hapart⟩, describeFields_eq_ok.mp hds⟩
  · rintro ⟨fs, haccepted, hall⟩
    have hds := describeFields_eq_ok.mpr hall
    have hnone := (mutatorCollision?_eq_none (describeFields_names hds)).mpr haccepted.apart
    rw [describeBody, haccepted.plain, if_neg Bool.false_ne_true,
      fieldsOf_eq_ok.mpr haccepted.fields]
    refine bind_eq_ok.mpr ⟨ds, hds, ?_⟩
    rw [hnone]
    rfl

/-- Fields that have no description, or collide, rule their declaration out. -/
theorem ruledOut_of_fields (hplain : r.declaration.generic = false)
    (hfields : r.declaration.body.BuiltFrom fs)
    (h : (do
      let ds ← r.describeFields fs
      match mutatorCollision? ds with
      | some f => .error (.unsupported (.mutatorName f.name))
      | none => return ds) = .error cause) : r.RuledOut cause := by
  rcases bind_eq_error.mp h with hfail | ⟨ds, hds, hcollision⟩
  · obtain ⟨before, f, after, rfl, hbefore, hf⟩ := describeFields_eq_error.mp hfail
    rcases describeField_eq_error.mp hf with ⟨hname, rfl⟩ | ⟨hname, reason, hreason, rfl⟩
    · exact .reserved hplain hfields hbefore hname
    · exact .type hplain hfields hbefore hname (exists_refusal_iff.mp ⟨reason, hreason⟩) hreason
  · split at hcollision
    · next fd hfd =>
        obtain rfl := Except.error.inj hcollision
        obtain ⟨before, f, after, rfl, hname, hcollides, hbefore⟩ :=
          (mutatorCollision?_eq_some (describeFields_names hds)).mp
            (congrArg (Option.map FieldDescription.name) hfd)
        rw [← hname]
        exact .collision hplain hfields (describeFields_isOk.mp ⟨ds, hds⟩) hbefore hcollides
    · cases hcollision

/-- **A body is refused for the first cause.** -/
theorem describeBody_eq_error : r.describeBody = .error cause ↔ r.RuledOut cause := by
  rw [describeBody]
  cases hgeneric : r.declaration.generic with
  | true =>
      have hno : r.declaration.generic ≠ false := by simp [hgeneric]
      rw [if_pos rfl]
      constructor
      · intro h
        obtain rfl := Except.error.inj h
        exact .generic hgeneric
      · intro h
        cases h with
        | generic => rfl
        | kind hplain | reserved hplain | type hplain | collision hplain => exact absurd hplain hno
  | false =>
      rw [if_neg Bool.false_ne_true]
      constructor
      · intro h
        split at h
        · next gap hgap =>
            obtain rfl := Except.error.inj h
            exact .kind hgeneric (fieldsOf_eq_error.mp hgap)
        · next fs hfs => exact ruledOut_of_fields hgeneric (fieldsOf_eq_ok.mp hfs) h
      · intro h
        cases h with
        | generic htrue => cases hgeneric.symm.trans htrue
        | kind _ hbody => rw [fieldsOf_eq_error.mpr hbody]
        | reserved _ hfields hbefore hname =>
            rw [fieldsOf_eq_ok.mpr hfields]
            refine bind_eq_error.mpr (Or.inl (describeFields_eq_error.mpr ?_))
            exact ⟨_, _, _, rfl, hbefore, describeField_eq_error.mpr (Or.inl ⟨hname, rfl⟩)⟩
        | type _ hfields hbefore hname _ hreason =>
            rw [fieldsOf_eq_ok.mpr hfields]
            refine bind_eq_error.mpr (Or.inl (describeFields_eq_error.mpr ?_))
            exact ⟨_, _, _, rfl, hbefore,
              describeField_eq_error.mpr (Or.inr ⟨hname, _, hreason, rfl⟩)⟩
        | collision _ hfields hall hbefore hcollides =>
            obtain ⟨ds, hds⟩ := describeFields_isOk.mpr hall
            have hsome := (mutatorCollision?_eq_some (describeFields_names hds)).mpr
              ⟨_, _, _, rfl, rfl, hcollides, hbefore⟩
            obtain ⟨fd, hfd, hname⟩ := Option.map_eq_some_iff.mp hsome
            rw [fieldsOf_eq_ok.mpr hfields]
            refine bind_eq_error.mpr (Or.inr ⟨ds, hds, ?_⟩)
            rw [hfd, ← hname]

/-! ## Descriptions -/

theorem describe_eq_ok {d : StoreDescription} : r.describe = .ok d ↔
    r.describeBody = .ok d.fields ∧ d.origin = r.origin ∧ d.home = r.home ∧ d.root = r.name ∧
      d.visibility = r.declaration.modifier.visibility := by
  constructor
  · intro h
    obtain ⟨hbody, horigin, hhome, hroot⟩ := describe_ok h
    exact ⟨hbody, horigin, hhome, hroot, visibility_of_describe h⟩
  · obtain ⟨origin, home, root, visibility, fields⟩ := d
    rintro ⟨hbody, rfl, rfl, rfl, rfl⟩
    rw [describe, hbody]

theorem describe_eq_error {e : Failure} : r.describe = .error e ↔
    r.describeBody = .error e.cause ∧ e.home = r.home ∧ e.declaration = r.name := by
  rw [describe]
  cases hbody : r.describeBody with
  | ok fields => simp
  | error cause =>
      constructor
      · intro h
        obtain rfl := Except.error.inj h
        exact ⟨rfl, rfl, rfl⟩
      · obtain ⟨home, declaration, cause'⟩ := e
        rintro ⟨hcause, rfl, rfl⟩
        rw [Except.error.inj hcause]

/-- **Which declarations have a description.** Just the accepted ones do. The description is of the
    declaration's own origin, namespace, name and visibility and has its fields, all of them in order,
    each with the shape that its type stands for. Any other declaration fails with its own namespace
    and name and with the first cause that rules it out. -/
theorem describe_iff (r : Root) :
    ((∃ d, r.describe = .ok d) ↔ ∃ fs, r.Accepted fs) ∧
    (∀ d, r.describe = .ok d ↔ (∃ fs, r.Accepted fs ∧
        List.Forall₂ (fun f fd => fd.name = f.name ∧ r.TypeDenotes f.type fd.shape) fs d.fields) ∧
      d.origin = r.origin ∧ d.home = r.home ∧ d.root = r.name ∧
      d.visibility = r.declaration.modifier.visibility) ∧
    ∀ e : Failure, r.describe = .error e ↔
      r.RuledOut e.cause ∧ e.home = r.home ∧ e.declaration = r.name := by
  have hfields : ∀ {fs ds}, r.Accepted fs →
      (List.Forall₂ (fun f fd => r.describeField f = .ok fd) fs ds ↔
        List.Forall₂ (fun f fd => fd.name = f.name ∧ r.TypeDenotes f.type fd.shape) fs ds) := by
    intro fs ds haccepted
    simp only [describeField_eq_ok]
    constructor
    · exact fun h => h.imp fun _ _ hfd => hfd.2
    · exact fun h => ((List.forall₂_and_left fs ds).mpr
        ⟨fun f hf => (haccepted.describable f hf).free, h⟩)
  refine ⟨?_, ?_, ?_⟩
  · constructor
    · rintro ⟨d, hd⟩
      obtain ⟨fs, haccepted, -⟩ := describeBody_eq_ok.mp (describe_eq_ok.mp hd).1
      exact ⟨fs, haccepted⟩
    · rintro ⟨fs, haccepted⟩
      obtain ⟨ds, hds⟩ := describeFields_isOk.mpr haccepted.describable
      have hbody := describeBody_eq_ok.mpr ⟨fs, haccepted, describeFields_eq_ok.mp hds⟩
      exact ⟨⟨r.origin, r.home, r.name, _, ds⟩, describe_eq_ok.mpr ⟨hbody, rfl, rfl, rfl, rfl⟩⟩
  · intro d
    rw [describe_eq_ok, describeBody_eq_ok]
    exact and_congr_left' (exists_congr fun fs => and_congr_right hfields)
  · intro e
    rw [describe_eq_error, describeBody_eq_error]

/-- A reserved name counts before a collision, also where the colliding field stands in front. -/
example : (countersRoot "Job" ["count_with", "flow", "count"]).describe =
    .error ⟨.crateRoot, "Job", .unsupported (.accessorName "flow")⟩ := rfl

end Root

end ObservableStore
