import ObservableStore.Proofs.Wrapper.ImportBlock
import ObservableStore.Proofs.Wrapper.MethodNames
import ObservableStore.Proofs.Wrapper.NameSoundness

/-!
# `Proofs.Wrapper.BoundNames` — the names that a file of its own binds

At its top level the file of a wrapper binds the last segment of each `use` line and the wrapper's own
name (`Wrapper.boundNames`). The pass over the references lets no two of them import one name, and it
begins with the root, so that the root's name is taken from the start. The wrapper's name is not: a
type of a field that is called like the wrapper is imported, and the file binds the name twice
(`store_name_imported`). That is the only way for two names to be written alike
(`nodup_boundNames_iff`).

Two names are the same identifier when they differ in raw marks only. The pass compares names as they
are written, so a marked name and a bare one of the same letters are both imported
(`nodup_bareBoundNames_iff`). Unicode normal forms are left out.
-/

namespace ObservableStore

/-! ## The name of a wrapper -/

namespace StoreDescription

variable {d : StoreDescription}

theorem bareName_storeName (d : StoreDescription) :
    bareName d.storeName = bareName d.root ++ "Store" := by
  apply String.toList_inj.mp
  rw [bareName, storeName, String.toList_append, stripRawMarks_append (by decide) (by decide)]
  simp [bareName]

theorem bareName_root_ne (d : StoreDescription) : bareName d.root ≠ bareName d.storeName := by
  intro h
  have hlen := congrArg String.length h
  have hsuffix : "Store".length = 5 := rfl
  rw [bareName_storeName, String.length_append, hsuffix] at hlen
  omega

theorem root_ne_storeName (d : StoreDescription) : d.root ≠ d.storeName := fun h =>
  d.bareName_root_ne (congrArg bareName h)

/-- A name is taken by the root or by a type that the fields mention. -/
theorem takes_iff {name : String} :
    d.Takes name ↔ d.root = name ∨ ∃ s, d.Mentions s ∧ s.name = name := by
  simp only [Takes, mentions_iff, and_assoc]

end StoreDescription

/-! ## The names of a file -/

/-- The names that the file of a wrapper binds at its top level: the last segments of the `use` lines
    and the wrapper's name. -/
def Wrapper.boundNames (w : Wrapper) : List String :=
  w.usePaths.filterMap (fun p => p.names.getLast?) ++ [w.name]

namespace StoreDescription

variable {d : StoreDescription}

theorem boundNames_ofDescription (d : StoreDescription) (runtime : String) :
    (Wrapper.ofDescription d ⟨runtime, .module⟩).boundNames
      = importNames d.imports ++ [d.storeName] := by
  have hlast : (fun i : Import => (i.1.pathTo i.2).names.getLast?) = fun i => some i.2 := by
    funext i
    simp [Namespace.pathTo]
  have hnames : (Wrapper.ofDescription d ⟨runtime, .module⟩).usePaths.filterMap
      (fun p => p.names.getLast?) = importNames d.imports := by
    rw [Wrapper.usePaths, List.filterMap_map]
    exact (congrArg (fun f => List.filterMap f d.imports) hlast).trans
      (List.filterMap_eq_map' (f := Prod.snd) ▸ rfl)
  rw [Wrapper.boundNames, hnames]
  rfl

/-- As they are written, two names of the file are alike only if a type is called like the wrapper. -/
theorem nodup_boundNames_iff (d : StoreDescription) :
    (importNames d.imports ++ [d.storeName]).Nodup ↔ ∀ s, d.Mentions s → s.name ≠ d.storeName := by
  rw [← List.concat_eq_append, List.nodup_concat, mem_importNames_iff, takes_iff]
  constructor
  · rintro ⟨hfree, -⟩ s hs hname
    exact hfree (Or.inr ⟨s, hs, hname⟩)
  · intro hfree
    refine ⟨?_, d.nodup_import_names⟩
    rintro (hroot | ⟨s, hs, hname⟩)
    · exact d.root_ne_storeName hroot
    · exact hfree s hs hname

/-- As identifiers, two names of the file are the same only if two of the taken names are, or if a type
    is called like the wrapper, raw marks apart. -/
theorem nodup_bareBoundNames_iff (d : StoreDescription) :
    ((importNames d.imports ++ [d.storeName]).map bareName).Nodup ↔
      (∀ a b, d.Takes a → d.Takes b → bareName a = bareName b → a = b) ∧
      ∀ s, d.Mentions s → bareName s.name ≠ bareName d.storeName := by
  rw [List.map_append, List.map_singleton, ← List.concat_eq_append, List.nodup_concat,
    List.nodup_map_iff_inj_on d.nodup_import_names]
  constructor
  · rintro ⟨hfree, hinj⟩
    refine ⟨fun a b ha hb heq => ?_, fun s hs heq => ?_⟩
    · exact hinj a (mem_importNames_iff.mpr ha) b (mem_importNames_iff.mpr hb) heq
    · have htaken : d.Takes s.name := takes_iff.mpr (Or.inr ⟨s, hs, rfl⟩)
      exact hfree (List.mem_map.mpr ⟨s.name, mem_importNames_iff.mpr htaken, heq⟩)
  · rintro ⟨hinj, hfree⟩
    refine ⟨fun hmem => ?_, fun a ha b hb heq => ?_⟩
    · obtain ⟨name, hname, heq⟩ := List.mem_map.mp hmem
      rcases takes_iff.mp (mem_importNames_iff.mp hname) with rfl | ⟨s, hs, rfl⟩
      · exact d.bareName_root_ne heq
      · exact hfree s hs heq
    · exact hinj a b (mem_importNames_iff.mp ha) (mem_importNames_iff.mp hb) heq

/-- The import block has the `use` lines of the file. -/
theorem importBlock_eq (runtime : String) (hhome : d.home.Global)
    (hshapes : ∀ s ∈ d.shapes, s.home.Global) :
    d.importBlock = String.join ((Wrapper.ofDescription d ⟨runtime, .module⟩).usePaths.map
      fun p => "use " ++ p.toText ++ ";\n") := by
  rw [importBlock, Wrapper.usePaths, List.map_map]
  refine congrArg String.join (List.map_congr_left fun i hi => ?_)
  rw [Import.text_eq (import_global hhome hshapes hi)]
  rfl

end StoreDescription

/-- **When a file of its own binds each name once.** For every root in a module of the crate that is
    described in the scope of that module, the file of its wrapper binds the last segments of its `use`
    lines and the name of the wrapper. As they are written, these are different exactly when no type
    that the fields mention is called like the wrapper. As identifiers they are different exactly when,
    moreover, no two of the names that the root and the mentioned types take differ in raw marks
    only. -/
theorem unit_names_distinct (rest : List String) (items : List Source.Item)
    (declaration : Source.Declaration) (origin : Origin) (runtime : String) (d : StoreDescription)
    (h : Root.describe ⟨declaration, .ofItems (.ofSegments ("crate" :: rest)) items, origin⟩
      = .ok d) :
    let w := Wrapper.ofDescription d ⟨runtime, .module⟩
    ((d.emit ⟨runtime, .module⟩).source =
      "// @generated by flowstore from `"
        ++ String.ofList (Wrapper.dropSeparators (d.home.qualify d.root).toList)
        ++ "`. Do not edit.\n\n"
        ++ String.join (w.usePaths.map fun p => "use " ++ p.toText ++ ";\n") ++ "\n"
        ++ Code.text (w.typeCode ++ w.methodsCode ++ w.constructorCode)) ∧
    w.name = declaration.name ++ "Store" ∧
    (w.boundNames.Nodup ↔ ∀ s, d.Mentions s → s.name ≠ w.name) ∧
    ((w.boundNames.map bareName).Nodup ↔
      (∀ a b, d.Takes a → d.Takes b → bareName a = bareName b → a = b) ∧
      ∀ s, d.Mentions s → bareName s.name ≠ bareName w.name) := by
  intro w
  obtain ⟨-, hroot, hglobal, hshapes⟩ := Root.describe_ofItems h
  refine ⟨?_, congrArg (· ++ "Store") hroot, ?_, ?_⟩
  · rw [← StoreDescription.importBlock_eq runtime hglobal hshapes]
    exact d.source_emit runtime
  · rw [StoreDescription.boundNames_ofDescription]
    exact d.nodup_boundNames_iff
  · rw [StoreDescription.boundNames_ofDescription]
    exact d.nodup_bareBoundNames_iff

/-! ## A type called like the wrapper -/

/-- A page with a label of a type that its module declares. -/
def labelledRoot (type : String) : Root where
  declaration := ⟨[], .none, "Page", false, .named [plainField "label" [type]]⟩
  scope := .ofItems (.ofSegments ["crate", "ui"]) [.declaration ⟨[], .none, type, false, .unit⟩]
  origin := .detached

/-- The description of such a page. -/
def labelledDescription (type : String) : StoreDescription where
  origin := .detached
  home := .ofSegments ["crate", "ui"]
  root := "Page"
  visibility := .inherited
  fields := [⟨"label", .mk (.ofSegments ["crate", "ui"]) type []⟩]

theorem labelledDescription_mentions {type : String} {s : Shape}
    (hs : (labelledDescription type).Mentions s) : s = .mk (.ofSegments ["crate", "ui"]) type [] := by
  have hshape := (StoreDescription.mentions_iff.mp hs).1
  simpa [StoreDescription.shapes, labelledDescription, Shape.walk] using hshape

/-- The file of a page with a label of the type `Label` binds each name once. -/
theorem unit_names_distinct_label :
    let d := labelledDescription "Label"
    let w := Wrapper.ofDescription d EmitOptions.module
    (labelledRoot "Label").describe = .ok d ∧ w.boundNames.Nodup ∧
      (w.boundNames.map bareName).Nodup := by
  intro d w
  have hdescribe : (labelledRoot "Label").describe = .ok d := rfl
  obtain ⟨-, -, hwritten, hidentifiers⟩ := unit_names_distinct ["ui"]
    [.declaration ⟨[], .none, "Label", false, .unit⟩] (labelledRoot "Label").declaration .detached
    defaultRuntimePath d hdescribe
  have htaken : ∀ a, d.Takes a → a = "Page" ∨ a = "Label" := by
    intro a ha
    rcases StoreDescription.takes_iff.mp ha with rfl | ⟨s, hs, rfl⟩
    · exact Or.inl rfl
    · exact Or.inr (by rw [labelledDescription_mentions hs]; rfl)
  refine ⟨hdescribe, hwritten.mpr fun s hs => ?_, hidentifiers.mpr ⟨fun a b ha hb heq => ?_,
    fun s hs => ?_⟩⟩
  · rw [labelledDescription_mentions hs]
    decide
  · rcases htaken a ha with rfl | rfl <;> rcases htaken b hb with rfl | rfl
    · rfl
    · exact absurd heq (by decide)
    · exact absurd heq (by decide)
    · rfl
  · rw [labelledDescription_mentions hs]
    decide

/-- **A type called like the wrapper is imported.** A page with a label of the type `PageStore` is
    described, and its file imports that type and declares the wrapper under the same name. -/
theorem store_name_imported :
    let d := labelledDescription "PageStore"
    let w := Wrapper.ofDescription d EmitOptions.module
    (labelledRoot "PageStore").describe = .ok d ∧ w.name = "PageStore" ∧
      "PageStore" ∈ d.imports.map Prod.snd ∧ ¬ w.boundNames.Nodup := by
  intro d w
  have hmentioned : d.Mentions (.mk (.ofSegments ["crate", "ui"]) "PageStore" []) :=
    ⟨rfl, _, List.mem_cons_self, .self _⟩
  refine ⟨rfl, rfl, ?_, ?_⟩
  · exact StoreDescription.mem_importNames_iff.mpr
      (StoreDescription.takes_iff.mpr (Or.inr ⟨_, hmentioned, rfl⟩))
  · have hnames : w.boundNames = d.imports.map Prod.snd ++ [d.storeName] :=
      d.boundNames_ofDescription defaultRuntimePath
    rw [hnames]
    exact fun hnodup => d.nodup_boundNames_iff.mp hnodup _ hmentioned rfl

end ObservableStore
