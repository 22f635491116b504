import Mathlib.Data.List.Forall2
import ObservableStore.Proofs.Wrapper.Identifiers

/-!
# `Proofs.Wrapper.NameSoundness` — the types of a wrapper in a file of its own

The wrapper of a root in a module of the crate, written into a file of its own: which of the types in
it stand for the types of the root's fields. All do that are written as paths or imported, at any
depth. A type of the prelude does exactly when its simple name is not taken by the root or by
another type of the fields: the file imports that other type under the name, and then the simple
name of the prelude type stands for it (`prelude_name_taken`). Read as identifiers, up to raw marks,
the names have a condition of their own.
-/

namespace ObservableStore

/-! ## The text of a written type -/

/-- An import reads as its path. -/
theorem Import.text_eq {i : Import} (h : i.1.Global) : i.text = (i.1.pathTo i.2).toText :=
  (Namespace.toText_pathTo h.nonempty i.2).symm

/-- A written type reads as its path with its arguments between angle brackets. -/
theorem StoreDescription.text_written (d : StoreDescription) (layout : Layout) {s : Shape}
    (h : s.home.Global) :
    (d.written layout s).text = (d.written layout s).path.toText
      ++ Shape.bracketed ((d.written layout s).arguments.map WrittenType.text) := by
  obtain ⟨home, name, args⟩ := s
  rw [StoreDescription.written]
  split
  · rw [WrittenType.text, WrittenType.path, WrittenType.arguments]
    simp [Source.Path.toText, Source.Path.ofName]
  · rw [WrittenType.text, WrittenType.path, WrittenType.arguments]
    exact congrArg (· ++ _) (Namespace.toText_pathTo h.nonempty name).symm

/-! ## Modules of the crate -/

/-- The prelude is not in the crate. -/
theorem Prelude.covers_crate (rest : List String) (name : String) :
    Prelude.covers (.ofSegments ("crate" :: rest)) name = false := by
  rw [← Bool.not_eq_true, Prelude.covers_iff]
  unfold Prelude.home?
  split
  · simp [Prelude.primitiveNamespace, Namespace.ofSegments]
  · split <;> simp [Namespace.ofSegments]

/-- What holds of the shapes in the fields and of the types that are written for them holds along the
    type of each mutator. -/
theorem StoreDescription.forall₂_mutator {d : StoreDescription} {R : WrittenType → Shape → Prop}
    (h : ∀ s ∈ d.shapes, R (d.written .module s) s) {f : FieldDescription} (hf : f ∈ d.fields) {m : Mutator}
    (hm : m ∈ Wrapper.mutatorsOf d .module f) : List.Forall₂ R m.type.walk f.shape.walk := by
  have htype : m.type = d.written .module f.shape := by
    simp only [Wrapper.mutatorsOf, List.mem_cons, List.not_mem_nil, or_false] at hm
    rcases hm with rfl | rfl <;> rfl
  rw [htype, StoreDescription.walk_written, List.forall₂_map_left_iff, List.forall₂_same]
  exact fun s hs => h s (List.mem_flatMap.mpr ⟨f, hf, hs⟩)

/-- **Sound names.** For every root in a module of the crate that is described in the scope of that
    module, and for its wrapper in a file of its own: no simple name is imported twice; the mutators
    of each field are in the wrapper; and each type in the type of such a mutator, at any depth, is
    written as a path that stands in the file for the type of the field, unless that is a type of
    the prelude whose name is taken, and then it stands for another one. As an identifier the path
    stands for that type exactly if it is no simple name or if the file imports nothing else under
    its identifier, and that only once. -/
theorem written_types_sound (rest : List String) (items : List Source.Item)
    (declaration : Source.Declaration) (origin : Origin) (runtime : String) (d : StoreDescription)
    (h : Root.describe ⟨declaration, .ofItems (.ofSegments ("crate" :: rest)) items, origin⟩
      = .ok d) :
    let w := Wrapper.ofDescription d ⟨runtime, .module⟩
    (w.imports.map Prod.snd).Nodup ∧
    w.imports.map Import.text = w.usePaths.map Source.Path.toText ∧
    ∀ f ∈ d.fields, ∀ m ∈ Wrapper.mutatorsOf d .module f, m ∈ w.mutators ∧
      List.Forall₂ (fun t s =>
          t.text = t.path.toText ++ Shape.bracketed (t.arguments.map WrittenType.text) ∧
          (w.meaning t.path = some s.typeName ↔ (s.isPrelude = true → ¬ d.Takes s.name)) ∧
          ((w.identified? t.path).map TypeName.bare = some s.typeName.bare ↔
            (d.nameable .module s.home s.name = true → d.BindsOnly s)))
        m.type.walk f.shape.walk := by
  intro w
  obtain ⟨hd, -, hglobal, hshapes⟩ := Root.describe_ofItems h
  have hroot : Prelude.covers d.home d.root = false := hd ▸ Prelude.covers_crate rest d.root
  refine ⟨d.nodup_import_names, ?_, ?_⟩
  · rw [Wrapper.usePaths, List.map_map]
    exact List.map_congr_left fun i hi =>
      Import.text_eq (StoreDescription.import_global hglobal hshapes hi)
  · intro f hf m hm
    refine ⟨List.mem_flatMap.mpr ⟨f, hf, hm⟩, StoreDescription.forall₂_mutator ?_ hf hm⟩
    intro s hs
    exact ⟨d.text_written .module (hshapes s hs),
      StoreDescription.meaning_written hglobal hroot hshapes hs,
      StoreDescription.identified?_written hglobal hshapes hs⟩

/-! ## A name that is taken -/

/-- A field whose type is a path without arguments. -/
def plainField (name : String) (path : List String) : Source.Field :=
  ⟨name, .path ⟨false, path⟩ [], []⟩

/-- A page with a title, which is a text of the prelude, and a label, which is of the type `String`
    that the page's module declares. -/
def pageRoot : Root where
  declaration := ⟨[], .none, "Page", false,
    .named [plainField "title" ["std", "string", "String"], plainField "label" ["String"]]⟩
  scope := .ofItems (.ofSegments ["crate", "ui"]) [.declaration ⟨[], .none, "String", false, .unit⟩]
  origin := .detached

/-- The text of the prelude. -/
def preludeText : Shape := .mk (.ofSegments ["std", "string"]) "String" []

/-- The type `String` of the page's module. -/
def ownText : Shape := .mk (.ofSegments ["crate", "ui"]) "String" []

/-- The description of the page. -/
def pageDescription : StoreDescription where
  origin := .detached
  home := .ofSegments ["crate", "ui"]
  root := "Page"
  visibility := .inherited
  fields := [⟨"title", preludeText⟩, ⟨"label", ownText⟩]

theorem pageRoot_describe : pageRoot.describe = .ok pageDescription := rfl

theorem walk_preludeText : preludeText.walk = [preludeText] := by
  simp [preludeText, Shape.walk]

theorem walk_ownText : ownText.walk = [ownText] := by
  simp [ownText, Shape.walk]

theorem mem_pageDescription_shapes {s : Shape} :
    s ∈ pageDescription.shapes ↔ s = preludeText ∨ s = ownText := by
  simp [StoreDescription.shapes, pageDescription, walk_preludeText, walk_ownText]

/-- The page's label is written soundly, and its title is not. -/
theorem written_types_sound_page :
    let w := Wrapper.ofDescription pageDescription EmitOptions.module
    pageRoot.describe = .ok pageDescription ∧
      w.meaning (pageDescription.written .module ownText).path = some ownText.typeName ∧
      w.meaning (pageDescription.written .module preludeText).path ≠ some preludeText.typeName := by
  intro w
  obtain ⟨-, -, hsound⟩ := written_types_sound ["ui"]
    [.declaration ⟨[], .none, "String", false, .unit⟩] pageRoot.declaration .detached
    defaultRuntimePath pageDescription pageRoot_describe
  obtain ⟨-, hlabel⟩ := hsound ⟨"label", ownText⟩ (List.mem_cons_of_mem _ List.mem_cons_self)
    ⟨"label", false, pageDescription.written .module ownText⟩ List.mem_cons_self
  obtain ⟨-, htitle⟩ := hsound ⟨"title", preludeText⟩ List.mem_cons_self
    ⟨"title", false, pageDescription.written .module preludeText⟩ List.mem_cons_self
  rw [StoreDescription.walk_written, walk_ownText] at hlabel
  rw [StoreDescription.walk_written, walk_preludeText] at htitle
  refine ⟨pageRoot_describe, ?_, ?_⟩
  · exact (List.forall₂_cons.mp hlabel).1.2.1.mpr (fun h => by cases h)
  · intro hmeaning
    have htaken : pageDescription.Takes "String" :=
      Or.inr ⟨ownText, mem_pageDescription_shapes.mpr (Or.inr rfl), rfl, rfl⟩
    exact (List.forall₂_cons.mp htitle).1.2.1.mp hmeaning rfl htaken

/-- **A prelude name that is taken.** The file of the page imports the label's type, so the title is
    written as the label's type: `String` stands for the type that the module declares. -/
theorem prelude_name_taken :
    let w := Wrapper.ofDescription pageDescription EmitOptions.module
    pageRoot.describe = .ok pageDescription ∧
    ⟨"title", preludeText⟩ ∈ pageDescription.fields ∧
    w.meaning (pageDescription.written .module preludeText).path = some ownText.typeName ∧
    ownText.typeName ≠ preludeText.typeName := by
  intro w
  have himport : (ownText.home, "String") ∈ pageDescription.imports := by
    obtain ⟨i, hi, hname⟩ := StoreDescription.name_imported (d := pageDescription) (s := ownText)
      (mem_pageDescription_shapes.mpr (Or.inr rfl)) rfl
    rcases StoreDescription.import_cases hi with rfl | ⟨s, hs, hp, rfl⟩
    · exact absurd hname (by decide)
    · rcases mem_pageDescription_shapes.mp hs with rfl | rfl
      · cases hp
      · exact hi
  have hpath : (pageDescription.written .module preludeText).path = .ofName "String" := by
    have hnameable : pageDescription.nameable .module preludeText.home "String" = true := rfl
    rw [preludeText, StoreDescription.written]
    exact congrArg WrittenType.path (if_pos hnameable)
  refine ⟨pageRoot_describe, List.mem_cons_self, ?_, by decide⟩
  rw [hpath]
  exact Wrapper.meaning_imported (w := w) pageDescription.nodup_import_names himport
    (Namespace.global_ofSegments (by decide))

end ObservableStore
