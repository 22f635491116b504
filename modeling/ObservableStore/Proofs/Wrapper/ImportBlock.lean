import Mathlib.Data.List.Nodup
import ObservableStore.GeneratedUnit
import ObservableStore.Proofs.Wrapper.Naming

/-!
# `Proofs.Wrapper.ImportBlock` — the imports of a file of its own, exactly

The pass over the references takes the first reference of each simple name, and the references are
sorted, so it takes the least namespace under which the name occurs (`mem_imports_iff`). That says
which imports there are in terms of what the fields mention, and since the imports are sorted strictly
it determines them (`imports_congr`): neither the order of the fields nor how often they mention a type
makes a difference. A type is then written by its simple name just if its own namespace is the one
that the name is imported from (`import_block`).

Shape of the argument. The order of imports is a linear one (`TransCmp`, `LawfulEqCmp`). What the pass
adds is the first of its name in the list it goes through (`first_of_added`), which in a sorted list
is the least (`least_of_sorted`).
-/

namespace ObservableStore

/-! ## The order of imports -/

instance : Std.TransCmp Namespace.compare :=
  inferInstanceAs (Std.TransCmp (compareLex (compareOn Namespace.segments)
    (compareOn Namespace.asWritten)))

instance : Std.LawfulEqCmp Namespace.compare where
  eq_of_compare {a b} h := by
    obtain ⟨hsegments, hwritten⟩ := Ordering.then_eq_eq.mp h
    obtain ⟨segments, asWritten⟩ := a
    obtain rfl : segments = b.segments := Std.LawfulEqOrd.eq_of_compare hsegments
    obtain rfl : asWritten = b.asWritten := Std.LawfulEqOrd.eq_of_compare hwritten
    rfl

instance : Std.TransOrd Namespace := inferInstanceAs (Std.TransCmp Namespace.compare)

instance : Std.TransCmp Import.compare :=
  inferInstanceAs (Std.TransCmp (compareLex (compareOn Prod.fst) (compareOn Prod.snd)))

instance : Std.LawfulEqCmp Import.compare where
  eq_of_compare {a b} h := by
    obtain ⟨hhome, hname⟩ := Ordering.then_eq_eq.mp h
    exact Prod.ext (Std.LawfulEqCmp.eq_of_compare hhome) (Std.LawfulEqOrd.eq_of_compare hname)

/-- Two namespaces, neither of which comes after the other, are one. -/
theorem Namespace.eq_of_le {a b : Namespace} (hab : a.le b = true) (hba : b.le a = true) : a = b :=
  Std.LawfulEqCmp.eq_of_compare (Std.OrientedCmp.isLE_antisymm hab hba)

namespace Import

/-- Imports of one name come in the order of their namespaces. -/
theorem le_iff_of_name {i j : Import} (h : i.2 = j.2) : le i j = true ↔ i.1.le j.1 = true := by
  have hname : Ord.compare i.2 j.2 = .eq := h ▸ Std.ReflOrd.compare_self
  rw [le, compare, hname, Ordering.then_eq, Namespace.le]

theorem le_total (i j : Import) : le i j = true ∨ le j i = true := by
  have hswap : compare i j = (compare j i).swap := Std.OrientedCmp.eq_swap
  rw [le, le, hswap]
  cases compare j i <;> simp

theorem pairwise_sorted (is : List Import) :
    (is.mergeSort le).Pairwise fun i j => le i j = true :=
  List.pairwise_mergeSort (fun _ _ _ => Std.TransCmp.isLE_trans)
    (fun i j => (Bool.or_eq_true _ _).mpr (le_total i j)) is

/-- Sorted imports without a repetition ascend strictly. -/
theorem ascending_of_nodup {is : List Import} (hnodup : is.Nodup) :
    (is.mergeSort le).Pairwise fun i j => compare i j = .lt := by
  have hne : (is.mergeSort le).Nodup := (List.mergeSort_perm is le).nodup_iff.mpr hnodup
  refine ((pairwise_sorted is).and hne).imp fun {i j} hij => ?_
  have hnot : compare i j ≠ .eq := fun heq => hij.2 (Std.LawfulEqCmp.eq_of_compare heq)
  have hle : (compare i j).isLE = true := hij.1
  cases hc : compare i j with
  | lt => rfl
  | eq => exact absurd hc hnot
  | gt =>
      rw [hc] at hle
      cases hle

/-- Strictly ascending imports are determined by what they are. -/
theorem eq_of_ascending {is js : List Import} (his : is.Pairwise fun i j => compare i j = .lt)
    (hjs : js.Pairwise fun i j => compare i j = .lt) (h : ∀ i, i ∈ is ↔ i ∈ js) : is = js := by
  have hnodup : ∀ {ks : List Import}, (ks.Pairwise fun i j => compare i j = .lt) → ks.Nodup := by
    refine fun hks => hks.imp fun {i j} hlt heq => ?_
    have hself : compare j j = .eq := Std.ReflCmp.compare_self
    rw [heq, hself] at hlt
    cases hlt
  have hperm := (List.perm_ext_iff_of_nodup (hnodup his) (hnodup hjs)).mpr h
  refine hperm.eq_of_pairwise (fun i j _ _ hlt hgt => ?_) his hjs
  have hswap : compare i j = (compare j i).swap := Std.OrientedCmp.eq_swap
  rw [hswap, hgt] at hlt
  cases hlt

end Import

/-! ## What the fields mention -/

/-- A type is another one or one of its arguments, at any depth. -/
inductive Shape.Within : Shape → Shape → Prop
  | self (s : Shape) : Within s s
  | argument {s a t : Shape} (ha : a ∈ s.arguments) (ht : Within t a) : Within t s

/-- A walk comes to just these. -/
theorem Shape.mem_walk_iff {s t : Shape} : t ∈ s.walk ↔ t.Within s := by
  constructor
  · intro h
    induction s using Shape.walk.induct with
    | case1 home name args ih =>
        rw [walk] at h
        rcases List.mem_cons.mp h with rfl | hrest
        · exact .self _
        · obtain ⟨ts, hts, ht⟩ := List.mem_flatten.mp hrest
          obtain ⟨a, ha, rfl⟩ := List.mem_map.mp hts
          exact .argument ha (ih a ha ht)
  · intro h
    induction h with
    | self s => exact s.mem_walk_self
    | argument ha _ ih => exact walk_argument ha ih

namespace StoreDescription

variable {d d' : StoreDescription} {i j : Import} {s : Shape} {name : String} {ns : Namespace}

/-- A type that the prelude does not have occurs in the fields, at any depth. -/
def Mentions (d : StoreDescription) (s : Shape) : Prop :=
  s.isPrelude = false ∧ ∃ f ∈ d.fields, s.Within f.shape

theorem mentions_iff : d.Mentions s ↔ s ∈ d.shapes ∧ s.isPrelude = false := by
  simp only [Mentions, shapes, List.mem_flatMap, Shape.mem_walk_iff, and_comm]

theorem mentions_iff_within : d.Mentions s ↔
    s.isPrelude = false ∧ ∃ t ∈ d.fields.map FieldDescription.shape, s.Within t := by
  simp [Mentions]

theorem mem_references_iff : i ∈ d.references ↔ ∃ s, d.Mentions s ∧ (s.home, s.name) = i := by
  simp only [mem_references, mentions_iff, and_assoc]

/-! ## The first of its name -/

/-- What the pass adds is the first of its name, in a list without the names that were found. -/
theorem first_of_added (refs : List Import) {found : List Import}
    (h : i ∈ refs.foldl addImport found) (hi : i ∉ found) :
    i.2 ∉ importNames found ∧
      ∃ front back, refs = front ++ i :: back ∧ i.2 ∉ importNames front := by
  -- the induction is on the references left, for whatever was found before them
  induction refs generalizing found with
  | nil => exact absurd h hi
  | cons j rest ih =>
      by_cases hj : j.2 ∈ importNames found
      · rw [List.foldl_cons, addImport_of_mem hj] at h
        obtain ⟨hfound, front, back, rfl, hfront⟩ := ih h hi
        refine ⟨hfound, j :: front, back, rfl, ?_⟩
        rintro hmem
        rcases List.mem_cons.mp hmem with heq | hmem
        · exact hfound (heq ▸ hj)
        · exact hfront hmem
      · rw [List.foldl_cons, addImport_of_not_mem hj] at h
        by_cases hij : i = j
        · subst hij
          exact ⟨hj, [], rest, rfl, List.not_mem_nil⟩
        · have hi' : i ∉ found ++ [j] := by simp [hi, hij]
          obtain ⟨hfound, front, back, rfl, hfront⟩ := ih h hi'
          simp only [importNames, List.map_append, List.map_cons, List.map_nil, List.mem_append,
            List.mem_singleton, not_or] at hfound
          refine ⟨hfound.1, j :: front, back, rfl, ?_⟩
          rintro hmem
          rcases List.mem_cons.mp hmem with heq | hmem
          · exact hfound.2 heq
          · exact hfront hmem

/-- In a sorted list the first of a name has the least namespace. -/
theorem least_of_sorted {front back : List Import}
    (hsorted : (front ++ i :: back).Pairwise fun a b => Import.le a b = true)
    (hfirst : i.2 ∉ importNames front) (hj : j ∈ front ++ i :: back) (hname : j.2 = i.2) :
    i.1.le j.1 = true := by
  obtain ⟨-, hrest, -⟩ := List.pairwise_append.mp hsorted
  rcases List.mem_append.mp hj with hfront | hj
  · exact absurd (hname ▸ List.mem_map_of_mem hfront) hfirst
  · rcases List.mem_cons.mp hj with rfl | hback
    · exact Std.ReflCmp.isLE_rfl
    · exact (Import.le_iff_of_name hname.symm).mp (List.rel_of_pairwise_cons hrest hback)

/-! ## What is imported -/

/-- A namespace is the least one under which the fields mention a name. -/
structure LeastHome (d : StoreDescription) (name : String) (ns : Namespace) : Prop where
  mentioned : ∃ s, d.Mentions s ∧ s.name = name ∧ s.home = ns
  least : ∀ s, d.Mentions s → s.name = name → ns.le s.home = true

theorem LeastHome.unique {ns' : Namespace} (h : d.LeastHome name ns) (h' : d.LeastHome name ns') :
    ns = ns' := by
  obtain ⟨s, hs, hname, rfl⟩ := h.mentioned
  obtain ⟨s', hs', hname', rfl⟩ := h'.mentioned
  exact Namespace.eq_of_le (h.least s' hs' hname') (h'.least s hs hname)

/-- Where the same is mentioned the least namespace is the same. -/
theorem LeastHome.congr (h : d.LeastHome name ns) (hsame : ∀ s, d'.Mentions s ↔ d.Mentions s) :
    d'.LeastHome name ns := by
  obtain ⟨s, hs, hname, hns⟩ := h.mentioned
  exact ⟨⟨s, (hsame s).mpr hs, hname, hns⟩, fun s' hs' => h.least s' ((hsame s').mp hs')⟩

/-- An import that the root does not have is the least of its name. -/
theorem leastHome_of_mem (hi : i ∈ d.imports) (hroot : i.2 ≠ d.root) : d.LeastHome i.2 i.1 := by
  have hnew : i ∉ [(d.home, d.root)] := by
    intro hmem
    exact hroot (congrArg Prod.snd (List.mem_singleton.mp hmem))
  obtain ⟨-, front, back, hrefs, hfirst⟩ := first_of_added d.references (mem_imports.mp hi) hnew
  have hsorted : d.references.Pairwise fun a b => Import.le a b = true := Import.pairwise_sorted _
  have hmem : i ∈ d.references := hrefs ▸ List.mem_append_right front List.mem_cons_self
  obtain ⟨s, hs, rfl⟩ := mem_references_iff.mp hmem
  refine ⟨⟨s, hs, rfl, rfl⟩, fun s' hs' hname => ?_⟩
  have hs'refs : (s'.home, s'.name) ∈ d.references := mem_references_iff.mpr ⟨s', hs', rfl⟩
  rw [hrefs] at hsorted hs'refs
  exact least_of_sorted hsorted hfirst hs'refs hname

/-- **What is imported.** The root from its own namespace, and every other name from the least
    namespace under which the fields mention it. -/
theorem mem_imports_iff : i ∈ d.imports ↔
    i = (d.home, d.root) ∨ i.2 ≠ d.root ∧ d.LeastHome i.2 i.1 := by
  have hunique {j k : Import} (hj : j ∈ d.imports) (hk : k ∈ d.imports) (hname : j.2 = k.2) :
      j = k := List.inj_on_of_nodup_map d.nodup_import_names hj hk hname
  constructor
  · intro hi
    by_cases hroot : i.2 = d.root
    · exact Or.inl (hunique hi d.root_imported hroot)
    · exact Or.inr ⟨hroot, leastHome_of_mem hi hroot⟩
  · rintro (rfl | ⟨hroot, hleast⟩)
    · exact d.root_imported
    · -- the name is imported from somewhere, and that is the least namespace as well
      obtain ⟨s, hs, hname, -⟩ := hleast.mentioned
      obtain ⟨hshape, hprelude⟩ := mentions_iff.mp hs
      obtain ⟨j, hj, hjname⟩ := name_imported hshape hprelude
      have hsame : j.2 = i.2 := hjname.trans hname
      have hjleast := leastHome_of_mem hj (hsame ▸ hroot)
      have hhome : j.1 = i.1 := (hsame ▸ hjleast).unique hleast
      exact Prod.ext hhome hsame ▸ hj

theorem ascending_imports (d : StoreDescription) :
    d.imports.Pairwise fun i j => Import.compare i j = .lt := by
  refine Import.ascending_of_nodup (List.Nodup.of_map Prod.snd ?_)
  exact nodup_foldl_addImport d.references (by simp)

/-- **The imports depend on what the fields mention only.** -/
theorem imports_congr (hhome : d'.home = d.home) (hroot : d'.root = d.root)
    (h : ∀ s, d'.Mentions s ↔ d.Mentions s) : d'.imports = d.imports := by
  have hleast : ∀ name ns, d'.LeastHome name ns ↔ d.LeastHome name ns :=
    fun name ns => ⟨fun hl => hl.congr fun s => (h s).symm, fun hl => hl.congr h⟩
  refine Import.eq_of_ascending d'.ascending_imports d.ascending_imports fun i => ?_
  rw [mem_imports_iff, mem_imports_iff, hhome, hroot, hleast]

/-- The namespace that a simple name is imported from. -/
def importedFrom? (d : StoreDescription) (name : String) : Option Namespace :=
  (d.imports.find? fun i => i.2 == name).map Prod.fst

theorem importedFrom?_eq_some : d.importedFrom? name = some ns ↔ (ns, name) ∈ d.imports := by
  rw [importedFrom?, Option.map_eq_some_iff]
  constructor
  · rintro ⟨i, hfind, rfl⟩
    have hname : i.2 = name := by simpa using List.find?_some hfind
    exact hname ▸ List.mem_of_find?_eq_some hfind
  · intro hmem
    exact ⟨_, find?_import d.nodup_import_names hmem, rfl⟩

/-- The names of the imports are those that are taken. -/
theorem mem_importNames_iff : name ∈ importNames d.imports ↔ d.Takes name := by
  constructor
  · intro h
    obtain ⟨i, hi, rfl⟩ := List.mem_map.mp h
    exact takes_of_import hi
  · intro h
    obtain ⟨i, hi, hname⟩ := import_of_takes h
    exact List.mem_map.mpr ⟨i, hi, hname⟩

/-- A type that the prelude does not have is written by its simple name just if that is imported from
    its own namespace. -/
theorem text_written_module (hp : s.isPrelude = false) : (d.written .module s).text =
    (if d.importedFrom? s.name = some s.home then s.name else s.home.qualify s.name)
      ++ Shape.bracketed (s.arguments.map fun a => (d.written .module a).text) := by
  obtain ⟨home, name, args⟩ := s
  have hcovers : Prelude.covers home name = false := hp
  have hnameable : d.nameable .module home name = true ↔ d.importedFrom? name = some home := by
    rw [nameable, hcovers, Bool.false_or, List.contains_iff_mem, importedFrom?_eq_some]
  rw [written]
  by_cases himported : d.importedFrom? name = some home
  · rw [if_pos (hnameable.mpr himported), WrittenType.text, List.map_map]
    exact congrArg (· ++ _) (if_pos himported).symm
  · rw [if_neg (mt hnameable.mp himported), WrittenType.text, List.map_map]
    exact congrArg (· ++ _) (if_neg himported).symm

/-! ## The block in the text of a unit -/

/-- The lines that import. -/
def importBlock (d : StoreDescription) : String :=
  String.join (d.imports.map fun i => "use " ++ i.text ++ ";\n")

end StoreDescription

namespace Code

theorem textAllAt_append (level : Nat) (cs ds : List Code) :
    textAllAt level (cs ++ ds) = textAllAt level cs ++ textAllAt level ds := by
  induction cs with
  | nil => simp [textAllAt]
  | cons c cs ih => rw [List.cons_append, textAllAt, textAllAt, ih, String.append_assoc]

/-- Lines of no level, each with its end. -/
theorem text_lines {α : Type} (f : α → String) (as : List α) :
    textAllAt 0 (as.map fun a => .line (f a)) = String.join (as.map fun a => f a ++ "\n") := by
  induction as with
  | nil => rfl
  | cons a as ih =>
      rw [List.map_cons, List.map_cons, String.join_cons, textAllAt, ih, textAt]
      simp [indent]

end Code

/-- A unit of its own: the first line, the import block and the code of the wrapper, with a blank line
    between them. -/
theorem StoreDescription.source_emit (d : StoreDescription) (runtime : String) :
    let w := Wrapper.ofDescription d ⟨runtime, .module⟩
    (d.emit ⟨runtime, .module⟩).source =
      "// @generated by flowstore from `"
        ++ String.ofList (Wrapper.dropSeparators (d.home.qualify d.root).toList)
        ++ "`. Do not edit.\n\n" ++ d.importBlock ++ "\n"
        ++ Code.text (w.typeCode ++ w.methodsCode ++ w.constructorCode) := by
  intro w
  show Code.textAllAt 0 (w.header ++ w.typeCode ++ w.methodsCode ++ w.constructorCode) = _
  have hheader : w.header =
      [.line ("// @generated by flowstore from `"
        ++ String.ofList (Wrapper.dropSeparators (d.home.qualify d.root).toList)
        ++ "`. Do not edit."), .blank]
      ++ d.imports.map (fun i => .line ("use " ++ i.text ++ ";")) ++ [.blank] := rfl
  rw [List.append_assoc, List.append_assoc, Code.textAllAt_append, hheader, Code.textAllAt_append,
    Code.textAllAt_append, Code.text_lines]
  simp [Code.textAllAt, Code.textAt, Code.indent, importBlock, Code.text, String.append_assoc]

/-- **The import block of a unit of its own.** For every description the unit has one line for each
    simple name among the root's and those of the types that the fields mention, and no other. The
    root is imported from its own namespace, and every other name from the least namespace under
    which the fields mention it. The lines ascend strictly by namespace and name. The types of the
    mutators are those of the fields as they are written for such a unit: a type that the prelude does
    not have by its simple name if its namespace is the one that the name is imported from, and with
    the path to it otherwise. So the block is the same however the fields are ordered and how often
    they repeat a type. -/
theorem import_block (d : StoreDescription) (runtime : String) :
    let w := Wrapper.ofDescription d ⟨runtime, .module⟩
    ((d.emit ⟨runtime, .module⟩).source =
      "// @generated by flowstore from `"
        ++ String.ofList (Wrapper.dropSeparators (d.home.qualify d.root).toList)
        ++ "`. Do not edit.\n\n" ++ d.importBlock ++ "\n"
        ++ Code.text (w.typeCode ++ w.methodsCode ++ w.constructorCode)) ∧
    (d.imports.map Prod.snd).Nodup ∧
    (∀ name, name ∈ d.imports.map Prod.snd ↔
      name = d.root ∨ ∃ s, d.Mentions s ∧ s.name = name) ∧
    d.importedFrom? d.root = some d.home ∧
    (∀ name ns, name ≠ d.root → (d.importedFrom? name = some ns ↔ d.LeastHome name ns)) ∧
    d.imports.Pairwise (fun i j => Import.compare i j = .lt) ∧
    (∀ m ∈ w.mutators, ∃ f ∈ d.fields, m.type = d.written .module f.shape) ∧
    (∀ s : Shape, s.isPrelude = false → (d.written .module s).text =
      (if d.importedFrom? s.name = some s.home then s.name else s.home.qualify s.name)
        ++ Shape.bracketed (s.arguments.map fun a => (d.written .module a).text)) ∧
    ∀ d' : StoreDescription, d'.home = d.home → d'.root = d.root →
      (∀ s, s ∈ d'.fields.map FieldDescription.shape ↔ s ∈ d.fields.map FieldDescription.shape) →
      d'.importBlock = d.importBlock := by
  intro w
  refine ⟨d.source_emit runtime, d.nodup_import_names, ?_, ?_, ?_, d.ascending_imports, ?_,
    fun s hp => StoreDescription.text_written_module hp, ?_⟩
  · intro name
    rw [StoreDescription.mem_importNames_iff, StoreDescription.Takes, eq_comm]
    simp only [StoreDescription.mentions_iff, and_assoc]
  · exact StoreDescription.importedFrom?_eq_some.mpr d.root_imported
  · intro name ns hroot
    rw [StoreDescription.importedFrom?_eq_some, StoreDescription.mem_imports_iff]
    constructor
    · rintro (heq | ⟨-, hleast⟩)
      · exact absurd (congrArg Prod.snd heq) hroot
      · exact hleast
    · exact fun hleast => Or.inr ⟨hroot, hleast⟩
  · intro m hm
    obtain ⟨f, hf, hmutator⟩ := List.mem_flatMap.mp hm
    simp only [Wrapper.mutatorsOf, List.mem_cons, List.not_mem_nil, or_false] at hmutator
    rcases hmutator with rfl | rfl <;> exact ⟨f, hf, rfl⟩
  · intro d' hhome hroot hshapes
    have hmentions : ∀ s, d'.Mentions s ↔ d.Mentions s := by
      intro s
      simp only [StoreDescription.mentions_iff_within, hshapes]
    rw [StoreDescription.importBlock, StoreDescription.importBlock,
      StoreDescription.imports_congr hhome hroot hmentions]

/-- A page with fields of the types `b::X` and `a::X`. -/
def twoNamesakes : StoreDescription where
  origin := .detached
  home := .ofSegments ["crate", "ui"]
  root := "Page"
  visibility := .inherited
  fields := [⟨"left", .mk (.ofSegments ["b"]) "X" []⟩, ⟨"right", .mk (.ofSegments ["a"]) "X" []⟩]

theorem twoNamesakes_mentions {s : Shape} (hs : twoNamesakes.Mentions s) :
    s = .mk (.ofSegments ["b"]) "X" [] ∨ s = .mk (.ofSegments ["a"]) "X" [] := by
  have hshape := (StoreDescription.mentions_iff.mp hs).1
  simpa [StoreDescription.shapes, twoNamesakes, Shape.walk] using hshape

/-- The name comes from the namespace that is the least, and the other type is written as a path; with
    the fields the other way round, and once more, the block is the same. -/
theorem import_block_namesakes :
    let d := twoNamesakes
    d.importedFrom? "X" = some (.ofSegments ["a"]) ∧
      (d.written .module (.mk (.ofSegments ["b"]) "X" [])).text = "::b::X" ∧
      { d with fields := d.fields.reverse ++ d.fields }.importBlock = d.importBlock := by
  intro d
  obtain ⟨-, -, -, -, hfrom, -, -, hwritten, hsame⟩ := import_block d "::flowstore"
  have hleast : d.LeastHome "X" (.ofSegments ["a"]) := by
    refine ⟨⟨.mk (.ofSegments ["a"]) "X" [], ?_, rfl, rfl⟩, fun s hs _ => ?_⟩
    · exact ⟨rfl, _, List.mem_cons_of_mem _ List.mem_cons_self, .self _⟩
    · rcases twoNamesakes_mentions hs with rfl | rfl <;> decide
  have himported := (hfrom "X" _ (by decide)).mpr hleast
  refine ⟨himported, ?_, hsame _ rfl rfl fun s => ?_⟩
  · have htext := hwritten (.mk (.ofSegments ["b"]) "X" []) rfl
    have hname : Shape.name (.mk (.ofSegments ["b"]) "X" []) = "X" := rfl
    rw [hname, himported] at htext
    exact htext.trans (by decide)
  · simp

end ObservableStore
