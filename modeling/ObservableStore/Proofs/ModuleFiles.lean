import ObservableStore.Discovery
import ObservableStore.FileTree.Walk
import ObservableStore.Proofs.Location
import ObservableStore.Proofs.Namespace

/-!
# `Proofs.ModuleFiles` — source files and the modules they define

The place of a source file below the source directory says which module it defines
(`moduleNamespace_source`). A file `x.rs` defines the module `x` of the directory it lies in, and
`mod.rs` the module of the directory itself; in the source directory `lib.rs` and `main.rs` do so, too
(`DefinesAround`).

Every module has its file `mod.rs`, and a file beside its directory unless the name of that file is one
of those. These two are the only files that share a module, apart from the files of the crate itself
(`files_and_modules`). This is about files whose names are texts: the segments of a module are the
names themselves.
-/

namespace ObservableStore

namespace Location

variable {root file other : Location} {names dirs p q : List String} {x n : String}
variable {stem ext : List Char}

/-! ## Names with an extension -/

/-- A name is cut at its last dot. -/
theorem splitName_dot (hstem : stem ≠ []) (hext : '.' ∉ ext) :
    splitName (String.ofList (stem ++ '.' :: ext)) = (stem, some ext) := by
  have hall : ∀ c ∈ ext.reverse, decide (c ≠ '.') = true := by
    intro c hc
    refine decide_eq_true ?_
    rintro rfl
    exact hext (List.mem_reverse.mp hc)
  have hreversed : (stem ++ '.' :: ext).reverse = ext.reverse ++ '.' :: stem.reverse := by simp
  have htake : (ext.reverse ++ '.' :: stem.reverse).takeWhile (· ≠ '.') = ext.reverse := by
    rw [List.takeWhile_append_of_pos hall]
    simp
  have hdrop : (ext.reverse ++ '.' :: stem.reverse).dropWhile (· ≠ '.') = '.' :: stem.reverse := by
    rw [List.dropWhile_append_of_pos hall]
    simp
  rw [splitName, String.toList_ofList, hreversed, htake, hdrop]
  split
  · next hnil => cases hnil
  · next hsingle => exact absurd (List.reverse_eq_nil_iff.mp (List.cons.inj hsingle).2) hstem
  · next rest _ hcons => rw [← (List.cons.inj hcons).2, List.reverse_reverse, List.reverse_reverse]

/-- A name that is cut has a dot between its parts, and no dot behind that one. -/
theorem dot_of_splitName (h : splitName n = (stem, some ext)) :
    stem ≠ [] ∧ '.' ∉ ext ∧ n.toList = stem ++ '.' :: ext := by
  unfold splitName at h
  dsimp only at h
  split at h
  · cases h
  · cases h
  · next dot rest hmany hdrop =>
      obtain ⟨rfl, hext⟩ := Prod.mk.inj h
      obtain rfl := Option.some.inj hext
      -- what is dropped up to is the first character that is no part of the extension
      have hdot : dot = '.' := by
        have hhead := List.head?_dropWhile_not (· ≠ '.') n.toList.reverse
        rw [hdrop] at hhead
        simpa using hhead
      have hwhole := List.takeWhile_append_dropWhile (p := (· ≠ '.')) (l := n.toList.reverse)
      refine ⟨fun hnil => hmany ?_, fun hmem => ?_, ?_⟩
      · rw [List.reverse_eq_nil_iff.mp hnil]
      · have hall := List.all_eq_true.mp List.all_takeWhile '.' (List.mem_reverse.mp hmem)
        simp at hall
      · rw [hdrop, hdot] at hwhole
        have hback := congrArg List.reverse hwhole
        rw [List.reverse_reverse, List.reverse_append, List.reverse_cons] at hback
        exact hback.symm.trans (List.append_assoc _ _ _)

theorem splitName_rs (hx : x ≠ "") :
    splitName (x ++ ".rs") = (x.toList, some ['r', 's']) := by
  have hstem : x.toList ≠ [] := fun hnil => hx (String.toList_inj.mp hnil)
  have hname : String.ofList (x.toList ++ ['.', 'r', 's']) = x ++ ".rs" :=
    String.toList_inj.mp (by rw [String.toList_ofList, String.toList_append]; rfl)
  rw [← hname]
  exact splitName_dot hstem (by decide)

theorem stemOf_rs (hx : x ≠ "") : stemOf (x ++ ".rs") = x := by
  rw [stemOf, splitName_rs hx, String.ofList_toList]

/-- The name of a source file has something in front of the extension. -/
theorem extensionOf_eq_rs : extensionOf n = some "rs" ↔ ∃ x, x ≠ "" ∧ n = x ++ ".rs" := by
  constructor
  · intro h
    obtain ⟨ext, hsplit, hext⟩ := Option.map_eq_some_iff.mp h
    obtain rfl : ext = ['r', 's'] := by rw [← String.toList_ofList (l := ext), hext]; rfl
    obtain ⟨hstem, -, hname⟩ := dot_of_splitName (Prod.ext rfl hsplit)
    refine ⟨String.ofList (splitName n).1, by simpa using hstem, String.toList_inj.mp ?_⟩
    rw [hname, String.toList_append, String.toList_ofList]
    rfl
  · rintro ⟨x, hx, rfl⟩
    rw [extensionOf, splitName_rs hx]
    rfl

theorem isName_rs (hx : IsName x) : IsName (x ++ ".rs") := by
  have hlast : (x ++ ".rs").toList.getLast? = some 's' := by
    rw [String.toList_append, List.getLast?_append_of_ne_nil _ (by decide)]
    rfl
  have hne : ∀ s : String, s.toList.getLast? ≠ some 's' → x ++ ".rs" ≠ s := by
    rintro s hs rfl
    exact hs hlast
  refine ⟨hne "" (by decide), ?_, hne "." (by decide), hne ".." (by decide)⟩
  rw [String.toList_append, List.mem_append, not_or]
  exact ⟨hx.2.1, by decide⟩

/-! ## Source files -/

/-- The components of what lies below a root. -/
theorem below_of_components {cs : List Component} (h : file.components = root.components ++ cs) :
    below root file = cs := by
  have hstarts : file.startsWith root = true := by
    rw [startsWith, h, List.isPrefixOf_iff_prefix]
    exact List.prefix_append _ _
  rw [below, if_pos hstarts, h, List.drop_left]

/-- A source file below a root, by the names that lead to it. -/
structure IsSourceAt (root file : Location) (names : List String) : Prop where
  components : file.components = root.components ++ names.map .name
  below : names ≠ []
  extension : file.extension = some "rs"

/-- The directories of a source file and its name without the extension. -/
theorem IsSourceAt.parts (h : IsSourceAt root file names) :
    ∃ dirs x, x ≠ "" ∧ names = dirs ++ [x ++ ".rs"] := by
  obtain ⟨dirs, n, rfl⟩ := List.eq_nil_or_concat' names |>.resolve_left h.below
  have hcomponents : file.components = (root.components ++ dirs.map .name) ++ [.name n] := by
    rw [h.components, List.map_append, List.append_assoc]
    rfl
  have hext : extensionOf n = some "rs" := (extension_of_components hcomponents).symm.trans h.extension
  obtain ⟨x, hx, rfl⟩ := extensionOf_eq_rs.mp hext
  exact ⟨dirs, x, hx, rfl⟩

end Location

open Location

/-! ## Modules of files -/

variable {root file : Location} {names dirs dirs' p q : List String} {x y : String}

/-- Whether a file defines the module of the directory that it lies in: by the directories below the
    root and its name without the extension. -/
def DefinesAround (dirs : List String) (x : String) : Prop :=
  x = "mod" ∨ dirs = [] ∧ (x = "lib" ∨ x = "main")

instance : Decidable (DefinesAround dirs x) :=
  inferInstanceAs (Decidable (_ ∨ _))

/-- The path below the crate of the module that a file defines. -/
def modulePath (dirs : List String) (x : String) : List String :=
  if DefinesAround dirs x then dirs else dirs ++ [x]

theorem modulePath_around (h : DefinesAround dirs x) : modulePath dirs x = dirs := if_pos h

theorem modulePath_inside (h : ¬ DefinesAround dirs x) : modulePath dirs x = dirs ++ [x] := if_neg h

/-- **The module of a source file.** -/
theorem moduleNamespace_source (hx : x ≠ "")
    (h : file.components = root.components ++ (dirs ++ [x ++ ".rs"]).map .name) :
    moduleNamespace root file = .ofSegments ("crate" :: modulePath dirs x) := by
  have hbelow : below root file = dirs.map .name ++ [.name (x ++ ".rs")] := by
    rw [below_of_components h, List.map_append]
    rfl
  have hparent : (dirs.map Component.name).foldl (fun ns c => ns.child c.text) .crateRoot =
      Namespace.ofSegments ("crate" :: dirs) := by
    rw [foldl_child, List.map_map, show Component.text ∘ Component.name = id from rfl, List.map_id]
    rfl
  -- a directory `lib` or `main` below the root is no file of the crate
  have hroot : Namespace.ofSegments ("crate" :: dirs) = .crateRoot ↔ dirs = [] := by
    simp [Namespace.ofSegments, Namespace.crateRoot]
  have hstem : ((fileNameOf (dirs.map .name ++ [.name (x ++ ".rs")])).map stemOf).getD "" = x := by
    rw [fileNameOf_concat]
    exact stemOf_rs hx
  rw [moduleNamespace, hbelow, List.dropLast_concat, hparent, hstem]
  simp only [hroot]
  by_cases hmod : x = "mod"
  · rw [if_pos hmod, modulePath_around (Or.inl hmod)]
  · rw [if_neg hmod]
    by_cases hcrate : dirs = [] ∧ (x = "lib" ∨ x = "main")
    · rw [if_pos hcrate, modulePath_around (Or.inr hcrate)]
    · rw [if_neg hcrate, modulePath_inside (not_or.mpr ⟨hmod, hcrate⟩)]
      rfl

/-! ## Files that share a module -/

/-- A file beside the directory of a module, and the file `mod.rs` in that directory. -/
def Beside (p q : List String) : Prop :=
  ∃ dirs x, ¬ DefinesAround dirs x ∧ p = dirs ++ [x ++ ".rs"] ∧ q = dirs ++ [x, "mod.rs"]

/-- The files that define the crate itself. -/
def crateFiles : List (List String) := [["lib.rs"], ["main.rs"], ["mod.rs"]]

theorem path_inj :
    dirs ++ [x ++ ".rs"] = dirs' ++ [y ++ ".rs"] ↔ dirs = dirs' ∧ x = y := by
  rw [List.append_singleton_inj, String.append_left_inj]

/-- The directory of a module that has a file beside it. -/
theorem modulePath_beside (h : ¬ DefinesAround dirs x) :
    modulePath dirs x = modulePath (dirs ++ [x]) "mod" := by
  rw [modulePath_inside h, modulePath_around (Or.inl rfl)]

theorem mem_crateFiles : dirs ++ [x ++ ".rs"] ∈ crateFiles ↔ dirs = [] ∧ DefinesAround dirs x := by
  have hfile : ∀ z : String, dirs ++ [x ++ ".rs"] = [] ++ [z ++ ".rs"] ↔ dirs = [] ∧ x = z :=
    fun z => path_inj
  have hfiles : crateFiles = [["lib" ++ ".rs"], ["main" ++ ".rs"], ["mod" ++ ".rs"]] := rfl
  rw [hfiles, DefinesAround]
  simp only [List.nil_append] at hfile
  simp only [List.mem_cons, List.not_mem_nil, or_false, hfile]
  tauto

/-- A file that defines a module around it shares it with one that does not only as `mod.rs` in the
    directory of the other's module. -/
theorem beside_of_modulePath (hx : ¬ DefinesAround dirs x) (hy : DefinesAround dirs' y)
    (h : modulePath dirs x = modulePath dirs' y) :
    Beside (dirs ++ [x ++ ".rs"]) (dirs' ++ [y ++ ".rs"]) := by
  rw [modulePath_inside hx, modulePath_around hy] at h
  have hmod : y = "mod" := by
    rcases hy with hmod | ⟨hnil, -⟩
    · exact hmod
    · rw [hnil] at h
      exact absurd h (List.concat_ne_nil x dirs)
  refine ⟨dirs, x, hx, rfl, ?_⟩
  rw [← h, hmod, List.append_assoc]
  rfl

/-- The module of a file beside a directory is that of `mod.rs` in there. -/
theorem modulePath_of_beside (h : Beside (dirs ++ [x ++ ".rs"]) (dirs' ++ [y ++ ".rs"])) :
    modulePath dirs x = modulePath dirs' y := by
  obtain ⟨above, z, hz, hfile, hmod⟩ := h
  obtain ⟨rfl, rfl⟩ := path_inj.mp hfile
  have hinner : dirs' ++ [y ++ ".rs"] = (dirs ++ [x]) ++ ["mod" ++ ".rs"] := by
    rw [hmod, List.append_assoc]
    rfl
  obtain ⟨rfl, rfl⟩ := path_inj.mp hinner
  exact modulePath_beside hz

/-- **Two files share a module** if one lies beside the directory where the other is `mod.rs`, or both
    define the crate. -/
theorem modulePath_eq_iff (hne : dirs ++ [x ++ ".rs"] ≠ dirs' ++ [y ++ ".rs"]) :
    modulePath dirs x = modulePath dirs' y ↔
      Beside (dirs ++ [x ++ ".rs"]) (dirs' ++ [y ++ ".rs"]) ∨
        Beside (dirs' ++ [y ++ ".rs"]) (dirs ++ [x ++ ".rs"]) ∨
        dirs ++ [x ++ ".rs"] ∈ crateFiles ∧ dirs' ++ [y ++ ".rs"] ∈ crateFiles := by
  constructor
  · intro h
    by_cases hx : DefinesAround dirs x
    · by_cases hy : DefinesAround dirs' y
      · rw [modulePath_around hx, modulePath_around hy] at h
        subst h
        refine Or.inr (Or.inr ?_)
        rw [mem_crateFiles, mem_crateFiles]
        -- in a directory below the root only `mod.rs` defines the module around it
        have hnil : dirs = [] := by
          by_contra hbelow
          have hxmod := hx.resolve_right fun hcrate => hbelow hcrate.1
          have hymod := hy.resolve_right fun hcrate => hbelow hcrate.1
          exact hne (by rw [hxmod, hymod])
        exact ⟨⟨hnil, hx⟩, hnil, hy⟩
      · exact Or.inr (Or.inl (beside_of_modulePath hy hx h.symm))
    · by_cases hy : DefinesAround dirs' y
      · exact Or.inl (beside_of_modulePath hx hy h)
      · rw [modulePath_inside hx, modulePath_inside hy] at h
        obtain ⟨rfl, rfl⟩ := List.append_singleton_inj.mp h
        exact absurd rfl hne
  · rintro (hbeside | hbeside | ⟨hp, hq⟩)
    · exact modulePath_of_beside hbeside
    · exact (modulePath_of_beside hbeside).symm
    · obtain ⟨rfl, hx⟩ := mem_crateFiles.mp hp
      obtain ⟨rfl, hy⟩ := mem_crateFiles.mp hq
      rw [modulePath_around hx, modulePath_around hy]

/-- **Files and modules.** A module below the crate has its file `mod.rs` and one beside its directory,
    unless the name of that one means the module around it. Two source files share a module only so,
    or if both define the crate. -/
theorem files_and_modules (root : Location) :
    (∀ dirs x, (∀ n ∈ dirs, IsName n) → IsName x →
      moduleNamespace root (FileTree.locate root (dirs ++ [x, "mod.rs"])) =
          .ofSegments ("crate" :: (dirs ++ [x])) ∧
        (moduleNamespace root (FileTree.locate root (dirs ++ [x ++ ".rs"])) =
          .ofSegments ("crate" :: (dirs ++ [x])) ↔ ¬ DefinesAround dirs x)) ∧
      ∀ f g p q, IsSourceAt root f p → IsSourceAt root g q → p ≠ q →
        (moduleNamespace root f = moduleNamespace root g ↔
          Beside p q ∨ Beside q p ∨ p ∈ crateFiles ∧ q ∈ crateFiles) := by
  constructor
  · intro dirs x hdirs hx
    have hlocate : ∀ names : List String, (∀ n ∈ names, IsName n) →
        (FileTree.locate root names).components = root.components ++ names.map .name :=
      fun names => components_foldl_push root
    have hinner : ∀ n ∈ dirs ++ [x], IsName n :=
      List.forall_mem_append.mpr ⟨hdirs, List.forall_mem_singleton.mpr hx⟩
    have hmod := hlocate ((dirs ++ [x]) ++ ["mod" ++ ".rs"])
      (List.forall_mem_append.mpr ⟨hinner, List.forall_mem_singleton.mpr (by decide)⟩)
    have hbeside := hlocate (dirs ++ [x ++ ".rs"])
      (List.forall_mem_append.mpr ⟨hdirs, List.forall_mem_singleton.mpr (isName_rs hx)⟩)
    constructor
    · have hnamespace := moduleNamespace_source (by decide) hmod
      rw [modulePath_around (Or.inl rfl), List.append_assoc] at hnamespace
      exact hnamespace
    · rw [moduleNamespace_source hx.1 hbeside]
      constructor
      · intro h haround
        rw [modulePath_around haround] at h
        simp [Namespace.ofSegments] at h
      · intro hinside
        rw [modulePath_inside hinside]
  · intro f g p q hf hg hne
    obtain ⟨dirs, x, hx, rfl⟩ := hf.parts
    obtain ⟨dirs', y, hy, rfl⟩ := hg.parts
    rw [moduleNamespace_source hx hf.components, moduleNamespace_source hy hg.components,
      ← modulePath_eq_iff hne]
    simp [Namespace.ofSegments]

/-- The files of a module `ui` and those of the crate. -/
theorem files_and_modules_ui :
    (∀ n ∈ [], IsName n) ∧ IsName "ui" ∧
      moduleNamespace ⟨"src"⟩ ⟨"src/ui/mod.rs"⟩ = .ofSegments ["crate", "ui"] ∧
      moduleNamespace ⟨"src"⟩ ⟨"src/ui.rs"⟩ = .ofSegments ["crate", "ui"] ∧
      IsSourceAt ⟨"src"⟩ ⟨"src/main.rs"⟩ ["main.rs"] ∧ IsSourceAt ⟨"src"⟩ ⟨"src/mod.rs"⟩ ["mod.rs"] ∧
      moduleNamespace ⟨"src"⟩ ⟨"src/main.rs"⟩ = moduleNamespace ⟨"src"⟩ ⟨"src/mod.rs"⟩ ∧
      moduleNamespace ⟨"src"⟩ ⟨"src/ui/main.rs"⟩ ≠ moduleNamespace ⟨"src"⟩ ⟨"src/ui/mod.rs"⟩ := by
  obtain ⟨hmodule, hshared⟩ := files_and_modules ⟨"src"⟩
  have hui := hmodule [] "ui" (by decide) (by decide)
  have hmain : IsSourceAt ⟨"src"⟩ ⟨"src/main.rs"⟩ ["main.rs"] := ⟨by decide, by decide, by decide⟩
  have hmod : IsSourceAt ⟨"src"⟩ ⟨"src/mod.rs"⟩ ["mod.rs"] := ⟨by decide, by decide, by decide⟩
  have hcrate := hshared _ _ _ _ hmain hmod (by decide)
  exact ⟨by decide, by decide, hui.1, hui.2.mpr (by decide), hmain, hmod,
    hcrate.mpr (Or.inr (Or.inr (by decide))), by decide⟩

end ObservableStore
