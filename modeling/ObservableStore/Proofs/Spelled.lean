import ObservableStore.Proofs.Alone
import ObservableStore.Proofs.Source.Spelled
import ObservableStore.Proofs.Token.Identifier
import ObservableStore.Proofs.Wrapper.InlineTypes

/-!
# `Proofs.Spelled` — descriptions that are made of identifiers

Everything in a description that its wrapper repeats is spelled with identifiers: the root, the fields,
the names and namespaces of types, and the path of a restricted visibility (`StoreDescription.Spelled`).
The description of a declaration that has been read is spelled (`spelled_of_describe`), so what is said
of spelled descriptions holds of all that are derived.
-/

namespace ObservableStore

open Lexeme (isWord_iff)
open Source (TypeExpr)

/-- Identifiers joined by pairs of colons, with or without such a pair in front. -/
def IsPathText (s : String) : Prop := ∃ p : Source.Path, p.Spelled ∧ s = p.toText

/-- The path of the runtime crate where none is given is made of identifiers. -/
theorem isPathText_default : IsPathText defaultRuntimePath := by
  refine ⟨⟨true, ["flowstore"]⟩, ⟨List.cons_ne_nil _ _, fun n hn => ?_⟩, by decide⟩
  obtain rfl := List.mem_singleton.mp hn
  exact isWord_iff.mpr (Or.inl (by decide))

/-- A namespace whose segments are identifiers. -/
def Namespace.Spelled (ns : Namespace) : Prop := ∀ n ∈ ns.segments, Lexeme.IsWord n.toList

/-- A shape whose names and namespaces are spelled at every depth. -/
def Shape.Spelled (s : Shape) : Prop := ∀ u ∈ s.walk, Lexeme.IsWord u.name.toList ∧ u.home.Spelled

/-- A description that is made of identifiers. -/
structure StoreDescription.Spelled (d : StoreDescription) : Prop where
  home : d.home.Spelled
  root : Lexeme.IsWord d.root.toList
  visibility : ∀ path, d.visibility = .restricted path → IsPathText path
  names : ∀ f ∈ d.fields, Lexeme.IsWord f.name.toList
  shapes : ∀ f ∈ d.fields, f.shape.Spelled

/-! ## Shapes -/

theorem Namespace.spelled_here : Namespace.here.Spelled := by
  intro n hn
  obtain rfl := List.mem_singleton.mp hn
  exact isWord_iff.mpr (Or.inl (by decide))

/-- The namespaces of the prelude. -/
def Prelude.homes : List Namespace :=
  [primitiveNamespace, .ofSegments ["std", "string"], .ofSegments ["std", "vec"],
    .ofSegments ["std", "option"], .ofSegments ["std", "result"], .ofSegments ["std", "boxed"]]

theorem Prelude.mem_homes {name : String} {home : Namespace} (h : home? name = some home) :
    home ∈ homes := by
  unfold home? at h
  split at h
  · obtain rfl := Option.some.inj h
    exact List.mem_cons_self
  · split at h <;> simp_all [homes]

/-- The namespaces of the prelude are spelled. -/
theorem Prelude.spelled_of_home? {name : String} {home : Namespace} (h : home? name = some home) :
    home.Spelled := by
  have hall : ∀ ns ∈ homes, ∀ n ∈ ns.segments, Text.isIdentifierText n.toList = true := by decide
  exact fun n hn => isWord_iff.mpr (Or.inl (hall home (mem_homes h) n hn))

namespace Shape

variable {home : Namespace} {name : String} {args : List Shape}

theorem spelled_mk (hname : Lexeme.IsWord name.toList) (hhome : home.Spelled)
    (hargs : ∀ a ∈ args, a.Spelled) : (mk home name args).Spelled := by
  intro u hu
  rw [walk, List.mem_cons, List.mem_flatten] at hu
  rcases hu with rfl | ⟨us, hus, hu⟩
  · exact ⟨hname, hhome⟩
  · obtain ⟨a, ha, rfl⟩ := List.mem_map.mp hus
    exact hargs a ha u hu

theorem Spelled.head (h : (mk home name args).Spelled) : Lexeme.IsWord name.toList ∧ home.Spelled :=
  h _ (mem_walk_self _)

theorem Spelled.argument (h : (mk home name args).Spelled) {a : Shape} (ha : a ∈ args) : a.Spelled :=
  fun u hu => h u (walk_argument ha hu)

end Shape

/-- What a path of words stands for is spelled. -/
theorem Scope.spelled_of_resolve_here {p : Source.Path} {home : Namespace} {name : String}
    (hp : p.Legible) (h : (lenient .here).resolve p = .ok ⟨home, name⟩) :
    Lexeme.IsWord name.toList ∧ home.Spelled := by
  rcases resolve_here_cases h with ⟨hnames, rfl⟩ | ⟨-, hnames, -⟩
  · refine ⟨(hp.names name (hnames ▸ List.mem_singleton.mpr rfl)).word, ?_⟩
    cases hprelude : Prelude.home? name with
    | none => exact Namespace.spelled_here
    | some ns => exact Prelude.spelled_of_home? hprelude
  · have hmem : ∀ n ∈ home.segments ++ [name], Lexeme.IsWord n.toList :=
      fun n hn => (hp.names n (hnames ▸ hn)).word
    exact ⟨hmem name (by simp), fun n hn => hmem n (List.mem_append_left _ hn)⟩

/-- The shape of a type is spelled, with its arguments at every depth. -/
theorem Root.spelled_of_shapeOf {root : String} (hroot : Lexeme.IsWord root.toList) {t : TypeExpr} {s : Shape}
    (ht : t.Legible) (hs : shapeOf ⟨.here, root⟩ (.lenient .here) t = .ok s) : s.Spelled := by
  induction ht generalizing s with
  | itself =>
      obtain rfl := Except.ok.inj hs
      exact Shape.spelled_mk hroot Namespace.spelled_here fun a ha => by cases ha
  | @path p args hp _ _ ih =>
      rw [shapeOf] at hs
      split at hs
      · next found hresolve =>
          obtain ⟨home, name⟩ := found
          obtain ⟨shapes, hshapes, rfl⟩ := map_eq_ok.mp hs
          obtain ⟨ts, rfl, hall⟩ := shapesOf_eq_ok.mp hshapes
          obtain ⟨hname, hhome⟩ := Scope.spelled_of_resolve_here hp hresolve
          refine Shape.spelled_mk hname hhome fun a ha => ?_
          obtain ⟨t, ht, hshape⟩ := exists_of_forall₂ hall a ha
          exact ih t (List.mem_map_of_mem ht) hshape
      · cases hs
  | call =>
      rw [shapeOf] at hs
      split at hs <;> cases hs
  | paren _ ih => exact ih hs
  | other => cases hs

/-! ## Descriptions -/

theorem Source.Modifier.spelled_visibility {m : Source.Modifier} (hm : m.Spelled) {path : String}
    (h : m.visibility = .restricted path) : IsPathText path := by
  unfold visibility at h
  split at h
  · cases h
  · cases h
  · next p =>
      split at h
      · cases h
      · cases h
      · cases h
      · obtain rfl := Visibility.restricted.inj h
        exact ⟨p, hm p rfl, rfl⟩

/-- Only named fields are described. -/
theorem Root.named_of_mem {b : Source.Body} {fs : List Source.Field} {f : Source.Field}
    (h : fieldsOf b = .ok fs) (hf : f ∈ fs) : b = .named fs := by
  cases b with
  | named fields =>
      obtain rfl := Except.ok.inj h
      rfl
  | unit =>
      obtain rfl := Except.ok.inj h
      cases hf
  | tuple => cases h
  | enumeration => cases h
  | union => cases h

/-- **A declaration that has been read is described with identifiers only.** -/
theorem Root.spelled_of_describe {text : String} {d : Source.Declaration} {desc : StoreDescription}
    (htext : Source.declarationOfText text = some d) (h : (alone d).describe = .ok desc) :
    desc.Spelled := by
  have hlegible := Source.legible_of_declarationOfText htext
  have hspelled := Source.spelled_of_declarationOfText htext
  obtain ⟨hbody, -, hhome, hroot⟩ := describe_ok h
  obtain ⟨fs, hfs, hds⟩ := describeBody_ok hbody
  have hfield (fd : FieldDescription) (hfd : fd ∈ desc.fields) :
      ∃ f ∈ fs, (alone d).describeField f = .ok fd ∧ d.body = .named fs := by
    obtain ⟨f, hf, hdescribe⟩ := describeFields_ok hds fd hfd
    exact ⟨f, hf, hdescribe, named_of_mem hfs hf⟩
  refine ⟨?_, ?_, ?_, ?_, ?_⟩
  · rw [hhome]
    exact Namespace.spelled_here
  · rw [hroot]
    exact hlegible.word
  · intro path hpath
    rw [visibility_of_describe h] at hpath
    exact Source.Modifier.spelled_visibility hspelled.modifier hpath
  · intro fd hfd
    obtain ⟨f, hf, hdescribe, hnamed⟩ := hfield fd hfd
    rw [(describeField_name hdescribe).1]
    exact hspelled.body fs hnamed f hf
  · intro fd hfd
    obtain ⟨f, hf, hdescribe, hnamed⟩ := hfield fd hfd
    exact spelled_of_shapeOf hlegible.word (hlegible.body fs hnamed f hf)
      (describeField_ok hdescribe)

end ObservableStore
