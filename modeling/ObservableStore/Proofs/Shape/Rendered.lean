import ObservableStore.Proofs.Alone
import ObservableStore.Proofs.Token.Identifier

/-!
# `Proofs.Shape.Rendered` — shapes are recovered from their text

The text of a shape has simple names only, so the namespaces of its types are lost. The names and the
arguments are not: the text is read as a type, and a field of that type is described, wherever the
declaration is seen alone, with a shape of the same names and arguments at every depth
(`render_read_back`). So two shapes with one text have the same names and arguments.

The text is that of the type in which every name stands alone (`Shape.plain`), and reading written types
back is `typeOfText_written`. What a name that stands alone means where nothing else is known is a type
of the prelude or of the declaring module (`Shape.placed`).
-/

namespace ObservableStore

open Source (typeOfText TakesArguments)

/-! ## Names and arguments -/

/-- The names of a type and of its arguments, at every depth. -/
inductive NameTree where
  | node (name : String) (arguments : List NameTree)

/-- A name that a type can have: an identifier, behind a raw mark or not, that is no keyword. -/
structure IsTypeName (name : String) : Prop where
  word : Lexeme.IsWord name.toList
  noKeyword : Source.Ahead.isIdentifier name = true

theorem IsTypeName.takesArguments {name : String} (h : IsTypeName name) : TakesArguments name :=
  Or.inl h.noKeyword

namespace Shape

/-- The names of a shape and of its arguments. -/
def names : Shape → NameTree
  | .mk _ name args => .node name (args.map names)

/-- All simple names of a shape are names that types can have. -/
def Named (s : Shape) : Prop := ∀ u ∈ s.walk, IsTypeName u.name

/-- The type that is written with simple names only. -/
def plain : Shape → WrittenType
  | .mk _ name args => .simple name (args.map plain)

/-- The shape with the namespaces that its names have where nothing else is known. -/
def placed : Shape → Shape
  | .mk _ name args => .mk ((Prelude.home? name).getD .here) name (args.map placed)

variable {s t : Shape} {home : Namespace} {name : String} {args : List Shape}

theorem Named.head (h : (mk home name args).Named) : IsTypeName name :=
  h _ (mem_walk_self _)

theorem Named.argument (h : (mk home name args).Named) {a : Shape} (ha : a ∈ args) : a.Named :=
  fun _ hu => h _ (walk_argument ha hu)

/-! ## Shapes that are placed anew -/

theorem names_placed (s : Shape) : s.placed.names = s.names := by
  induction s using placed.induct with
  | case1 home name args ih =>
      rw [placed, names, names, List.map_map]
      exact congrArg (NameTree.node name) (List.map_congr_left ih)

theorem depth_placed (s : Shape) : s.placed.depth = s.depth := by
  induction s using placed.induct with
  | case1 home name args ih =>
      rw [placed, depth, depth, List.map_map (l := args)]
      exact congrArg (fun ds => (ds.map (· + 1)).foldl max 0) (List.map_congr_left ih)

theorem render_placed (s : Shape) : s.placed.render = s.render := by
  induction s using placed.induct with
  | case1 home name args ih =>
      rw [placed, render, render, List.map_map]
      exact congrArg (fun texts => name ++ bracketed texts) (List.map_congr_left ih)

theorem walk_placed (s : Shape) : s.placed.walk.map Shape.name = s.walk.map Shape.name := by
  induction s using placed.induct with
  | case1 home name args ih =>
      rw [placed, walk, walk, List.map_cons, List.map_cons, List.map_flatten, List.map_flatten,
        List.map_map, List.map_map, List.map_map]
      exact congrArg (fun walks => name :: List.flatten walks) (List.map_congr_left ih)

/-! ## The text of a shape -/

/-- The text of a shape is the text of the type that is written with simple names. -/
theorem text_plain (s : Shape) : s.plain.text = s.render := by
  induction s using plain.induct with
  | case1 home name args ih =>
      rw [plain, WrittenType.text, render, List.map_map]
      exact congrArg (fun texts => name ++ bracketed texts) (List.map_congr_left ih)

/-- A type that is written with simple names can be read again. -/
theorem legible_plain (h : s.Named) : s.plain.Legible := by
  induction s using plain.induct with
  | case1 home name args ih =>
      have hname := h.head
      have hpath : (plain (mk home name args)).path = .ofName name := by
        rw [plain]
        rfl
      have harguments : (plain (mk home name args)).arguments = args.map plain := by
        rw [plain]
        rfl
      have htry : name ≠ "try" := by
        rintro rfl
        exact absurd hname.noKeyword (by decide)
      have hself : name ≠ "Self" := by
        rintro rfl
        exact absurd hname.noKeyword (by decide)
      refine .mk ?_ ?_ ?_ ?_ ?_
      · rw [hpath, harguments, plain, WrittenType.text]
        simp [Source.Path.toText, Source.Path.ofName]
      · rw [hpath]
        refine ⟨List.cons_ne_nil _ _, fun n hn => ?_, fun _ heq => htry (Option.some.inj heq)⟩
        obtain rfl := List.mem_singleton.mp hn
        exact ⟨hname.word, Or.inl hname.takesArguments⟩
      · intro _
        rw [hpath]
        exact ⟨name, rfl, hname.takesArguments⟩
      · intro heq
        rw [hpath] at heq
        exact absurd (List.cons.inj (congrArg Source.Path.names heq)).1 hself
      · intro a ha
        rw [harguments] at ha
        obtain ⟨b, hb, rfl⟩ := List.mem_map.mp ha
        exact ih b hb (h.argument hb)

/-- What is read of it has the shape that is placed anew. -/
theorem shapeOf_plain (self : TypeName) (s : Shape) :
    Root.shapeOf self (.lenient .here) s.plain.expr = .ok s.placed := by
  induction s using plain.induct with
  | case1 home name args ih =>
      have hargs : Root.shapesOf self (.lenient .here)
          (args.map fun a => Source.Argument.type a.plain.expr) = .ok (args.map placed) := by
        refine Root.shapesOf_eq_ok.mpr ⟨args.map fun a => a.plain.expr, ?_, ?_⟩
        · rw [List.map_map]
          rfl
        · rw [List.forall₂_map_left_iff, List.forall₂_map_right_iff, List.forall₂_same]
          exact ih
      have hresolve : (Scope.lenient .here).resolve (.ofName name) =
          .ok ⟨(Prelude.home? name).getD .here, name⟩ := Scope.resolveName_here name
      rw [plain, WrittenType.expr, Root.shapeOf, hresolve, List.map_map, placed]
      exact congrArg (Except.map (Shape.mk _ name)) hargs

end Shape

/-! ## Fields of the type that the text gives -/

theorem awaitingMutatorName_ne (name : String) : awaitingMutatorName name ≠ name := by
  intro h
  have hbare := congrArg bareName h
  rw [bareName_awaitingMutatorName, awaitingMutatorName_eq] at hbare
  have hlen := congrArg String.length hbare
  have hsuffix : "_with".length = 5 := rfl
  rw [String.length_append, hsuffix] at hlen
  omega

/-- A declaration with one field is described alone when the field is. -/
theorem Root.describe_single {d : Source.Declaration} {f : Source.Field} {fd : FieldDescription}
    (hgeneric : d.generic = false) (hbody : d.body = .named [f])
    (h : (alone d).describeField f = .ok fd) :
    (alone d).describe = .ok ⟨.detached, .here, d.name, d.modifier.visibility, [fd]⟩ := by
  have hfields : (alone d).describeFields [f] = .ok [fd] :=
    describeFields_eq_ok.mpr (.cons h .nil)
  have hnone : mutatorCollision? [fd] = none := by
    have hne : (fd.awaitingMutator == fd.name) = false :=
      beq_eq_false_iff_ne.mpr (awaitingMutatorName_ne fd.name)
    simp [mutatorCollision?, hne]
  refine describe_of_fields (r := alone d) hgeneric ?_ hfields hnone
  show fieldsOf d.body = .ok [f]
  rw [hbody]
  rfl

/-- **The text of a shape is read as a type of the same names and arguments.** A field of the type that
    is read is described, in every declaration that is seen alone, with one and the same shape: it has
    the names and arguments of the given one at every depth, so also its depth, its names in the order
    of a walk and its text. Two shapes with the same text have the same names and arguments. -/
theorem render_read_back (s : Shape) (h : s.Named) :
    ∃ t written, ∃ s' : Shape, typeOfText s.render = some (t, written) ∧
      (∀ (d : Source.Declaration) (f : Source.Field), f.type = t → f.name ∉ Root.reservedNames →
        (Root.alone d).describeField f = .ok ⟨f.name, s'⟩ ∧
        (d.generic = false → d.body = .named [f] →
          ∃ desc, (Root.alone d).describe = .ok desc ∧ desc.fields = [⟨f.name, s'⟩])) ∧
      s'.names = s.names ∧ s'.depth = s.depth ∧
      s'.walk.map Shape.name = s.walk.map Shape.name ∧ s'.render = s.render ∧
      ∀ u : Shape, u.Named → u.render = s.render → u.names = s.names := by
  have hread : ∀ u : Shape, u.Named → ∃ written,
      typeOfText u.render = some (u.plain.expr, written) := by
    intro u hu
    rw [← u.text_plain]
    exact typeOfText_written (Shape.legible_plain hu)
  obtain ⟨written, htext⟩ := hread s h
  refine ⟨s.plain.expr, written, s.placed, htext, ?_, s.names_placed, s.depth_placed, s.walk_placed,
    s.render_placed, ?_⟩
  · intro d f htype hfree
    have hfield : (Root.alone d).describeField f = .ok ⟨f.name, s.placed⟩ := by
      have hshape : Root.shapeOf ⟨(Root.alone d).home, (Root.alone d).name⟩ (Root.alone d).scope
          s.plain.expr = .ok s.placed := Shape.shapeOf_plain _ s
      simp only [Root.describeField, if_neg hfree, htype, hshape]
    refine ⟨hfield, fun hgeneric hbody => ⟨_, Root.describe_single hgeneric hbody hfield, rfl⟩⟩
  · intro u hu hrender
    obtain ⟨written', htext'⟩ := hread u hu
    rw [hrender, htext] at htext'
    have hexpr : s.plain.expr = u.plain.expr := (Prod.mk.inj (Option.some.inj htext')).1
    have hplaced : s.placed = u.placed := by
      have hs := Shape.shapeOf_plain ⟨.here, ""⟩ s
      rw [hexpr, Shape.shapeOf_plain] at hs
      exact (Except.ok.inj hs).symm
    rw [← u.names_placed, ← hplaced, s.names_placed]

/-- A map from texts to lists of a type with a raw name, below an option. -/
def nestedShape : Shape :=
  .mk (.ofSegments ["std", "option"]) "Option"
    [.mk (.ofSegments ["std", "collections"]) "HashMap"
      [.mk (.ofSegments ["std", "string"]) "String" [],
        .mk (.ofSegments ["std", "vec"]) "Vec" [.mk (.ofSegments ["crate", "ui"]) "r#type" []]]]

theorem render_read_back_nested : nestedShape.Named ∧
    nestedShape.render = "Option<HashMap<String, Vec<r#type>>>" ∧
    ∃ t written, ∃ s' : Shape, typeOfText nestedShape.render = some (t, written) ∧
      s'.names = nestedShape.names ∧ s'.depth = 3 := by
  have hnamed : nestedShape.Named := by
    intro u hu
    have hname : u.name ∈ ["Option", "HashMap", "String", "Vec", "r#type"] := by
      simp only [nestedShape, Shape.walk, List.map_cons, List.map_nil, List.flatten_nil,
        List.flatten_cons, List.append_nil, List.cons_append, List.nil_append, List.mem_cons,
        List.not_mem_nil, or_false] at hu
      rcases hu with rfl | rfl | rfl | rfl | rfl <;> simp [Shape.name]
    have hall : ∀ n ∈ ["Option", "HashMap", "String", "Vec", "r#type"],
        (Text.isIdentifierText n.toList = true ∨ n = "r#type") ∧
          Source.Ahead.isIdentifier n = true := by decide
    obtain ⟨hident, hfree⟩ := hall _ hname
    refine ⟨Lexeme.isWord_iff.mpr ?_, hfree⟩
    rcases hident with hplain | hraw
    · exact Or.inl hplain
    · rw [hraw]
      exact Or.inr ⟨"type".toList, rfl, by decide, by decide⟩
  have hdepth : nestedShape.depth = 3 := by
    simp [nestedShape, Shape.depth]
  obtain ⟨t, written, s', htext, -, hnames, hdepth', -⟩ := render_read_back nestedShape hnamed
  exact ⟨hnamed, by simp [nestedShape, Shape.render, Shape.bracketed], t, written, s', htext, hnames,
    hdepth'.trans hdepth⟩

end ObservableStore
