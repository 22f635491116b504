import Mathlib.Data.Prod.Lex
import ObservableStore.Proofs.FileTree.Listing

/-!
# `Proofs.FileTree.WalkOrder` — the order in which files are listed

The files below a directory are listed in the order of their locations, component by component
(`Location.Before`), and that is not the order of their texts: `ui/mod.rs` comes before `ui.rs`.

A directory holds its entries in some order. Trees that differ only by that (`Relisted`) look the same
at every position (`Relisted.look`), so a location leads to the same position in both, and the same
files are listed there in the same order (`filesWithExtension_congr`). What is listed is therefore
said by the files themselves (`files_listed`).
-/

namespace ObservableStore

/-! ## The order of locations -/

/-- What decides between two components: the root comes first, then `.`, `..` and the names. -/
def Component.rank : Component → ℕ ×ₗ String
  | .root => toLex (0, "")
  | .here => toLex (1, "")
  | .up => toLex (2, "")
  | .name s => toLex (3, s)

/-- Whether a location comes before another one, component by component. -/
def Location.Before (l m : Location) : Prop :=
  l.components.map Component.rank < m.components.map Component.rank

instance (l m : Location) : Decidable (l.Before m) :=
  inferInstanceAs (Decidable (_ < _))

theorem Location.Before.ne {l m : Location} (h : l.Before m) : l ≠ m := by
  rintro rfl
  exact lt_irrefl _ h

namespace FileTree

open Location (IsName)

variable {t t' : FileTree} {p names names' : List String} {l : Location} {cs : List Component}
variable {entries entries' : List (String × FileTree)} {extension : String}

theorem components_locate (l : Location) (h : ∀ n ∈ names, IsName n) :
    (locate l names).components = l.components ++ names.map .name :=
  Location.components_foldl_push l h

/-- Names in their order lead to locations in theirs. -/
theorem before_locate (hnames : ∀ n ∈ names, IsName n) (hnames' : ∀ n ∈ names', IsName n)
    (h : names < names') : (locate l names).Before (locate l names') := by
  have hrank : ∀ m n : String, m < n → (Component.name m).rank < (Component.name n).rank :=
    fun m n hlt => Prod.Lex.right 3 hlt
  rw [Location.Before, components_locate l hnames, components_locate l hnames', List.map_append,
    List.map_append, List.map_map, List.map_map]
  exact List.append_left_lt (List.map_lt hrank h)

/-! ## What a walk lists -/

/-- The files listed at a location are those found at its position. -/
theorem filesWithExtension_at (h : t.position l = .ok p)
    (hp : t.look p = .directory) (extension : String) :
    t.filesWithExtension l extension = some ((t.found p extension).map (locate l)) := by
  obtain ⟨entries, hseen⟩ := look_directory.mp hp
  rw [filesWithExtension, at?, h]
  simp only [hseen, found, List.map_map]
  rfl

theorem filesWithExtension_none (h : ∀ p, t.position l = .ok p → t.look p ≠ .directory)
    (extension : String) : t.filesWithExtension l extension = none := by
  rw [filesWithExtension, at?]
  cases hposition : t.position l with
  | error e => rfl
  | ok p =>
      have hp := h p hposition
      cases hlook : t.look p with
      | nothing => simp only [look_nothing.mp hlook]
      | file c => simp only [seen?_file.mpr (look_file.mp hlook)]
      | directory => exact absurd hlook hp

/-- The extension of a location is that of its last name. -/
theorem extension_locate (l : Location) (h : ∀ n ∈ names, IsName n) (hne : names ≠ []) :
    (locate l names).extension = names.getLast?.bind Location.extensionOf := by
  obtain ⟨above, last, rfl⟩ := (List.eq_nil_or_concat' names).resolve_left hne
  rw [locate, Location.extension_foldl_push l h, List.getLast?_concat, Option.bind_some]

/-- What is found at a directory are the files below it with the extension. -/
theorem mem_found_below {r : List String} (ht : t.WellFormed)
    (hseen : t.seen? p = some (.directory entries)) : r ∈ t.found p extension ↔
      (∀ n ∈ r, IsName n) ∧ (∃ c, (directory entries).find? r = some (.file c)) ∧
        r.getLast?.bind Location.extensionOf = some extension := by
  have hform := ht.seen? hseen
  simp only [found, hseen, List.mem_map, List.mem_filter, beq_iff_eq]
  constructor
  · rintro ⟨⟨r, c⟩, ⟨hmem, hext⟩, rfl⟩
    obtain ⟨hfind, hinside⟩ := (mem_files hform).mp hmem
    exact ⟨fun n hn => hform.isName hfind hn (hinside n hn), ⟨c, hfind⟩, hext⟩
  · rintro ⟨hnames, ⟨c, hfind⟩, hext⟩
    have hinside : ∀ n ∈ r, Inside n := fun n hn => inside_of_isName (hnames n hn)
    exact ⟨(r, c), ⟨(mem_files hform).mpr ⟨hfind, hinside⟩, hext⟩, rfl⟩

/-! ## Trees that look the same -/

/-- A step leads to the same position in trees that look the same. -/
theorem step_alike (h : ∀ q, t'.look q = t.look q) {c : Component}
    (hc : ∀ n, c = .name n → Inside n) (p : List String) : t'.step p c = t.step p c := by
  cases c with
  | name n => exact step_congr (hc n rfl) (h p) (h _)
  | _ =>
      cases hlook : t.look p with
      | nothing => rw [step_of_nothing hlook, step_of_nothing ((h p).trans hlook)]
      | file c => rw [step_of_file hlook, step_of_file ((h p).trans hlook)]
      | directory =>
          obtain ⟨entries, hseen⟩ := look_directory.mp hlook
          obtain ⟨entries', hseen'⟩ := look_directory.mp ((h p).trans hlook)
          rw [step, step, hseen, hseen']

theorem follow_alike (h : ∀ q, t'.look q = t.look q) (hcs : ∀ n, .name n ∈ cs → Inside n)
    (p : List String) : t'.follow p cs = t.follow p cs := by
  induction cs generalizing p with
  | nil => rfl
  | cons c rest ih =>
      have hstep := step_alike h (fun n hn => hcs n (hn ▸ List.mem_cons_self)) p
      rw [follow, follow, hstep]
      cases t.step p c with
      | error e => rfl
      | ok next => exact ih (fun n hn => hcs n (List.mem_cons_of_mem c hn)) next

theorem any_isDirectory :
    (t.seen? p).any isDirectory = true ↔ t.look p = .directory := by
  unfold look
  rcases t.seen? p with _ | ⟨_ | _⟩ <;> simp [sight, isDirectory]

theorem position_alike (h : ∀ q, t'.look q = t.look q) (l : Location) :
    t'.position l = t.position l := by
  have hnames : ∀ n, .name n ∈ l.components → Inside n := fun n hn =>
    inside_of_isName (Location.isName_of_mem hn)
  have hdirectory : ∀ p, (t'.seen? p).any isDirectory = (t.seen? p).any isDirectory := fun p =>
    Bool.eq_iff_iff.mpr (by rw [any_isDirectory, any_isDirectory, h p])
  simp only [position, follow_alike h hnames, hdirectory]

/-- **The same files are listed in trees that look the same**, in the same order. -/
theorem filesWithExtension_congr (ht : t.WellFormed) (ht' : t'.WellFormed)
    (h : ∀ q, t'.look q = t.look q) (l : Location) (extension : String) :
    t'.filesWithExtension l extension = t.filesWithExtension l extension := by
  have hposition := position_alike h l
  by_cases hthere : ∃ p, t.position l = .ok p ∧ t.look p = .directory
  · obtain ⟨p, hp, hdirectory⟩ := hthere
    rw [filesWithExtension_at hp hdirectory,
      filesWithExtension_at (hposition.trans hp) ((h p).trans hdirectory),
      found_congr ht ht' fun q _ => h q]
  · have hnowhere : ∀ p, t.position l = .ok p → t.look p ≠ .directory := fun p hp hdirectory =>
      hthere ⟨p, hp, hdirectory⟩
    rw [filesWithExtension_none hnowhere, filesWithExtension_none]
    intro p hp
    rw [h p]
    exact hnowhere p (hposition.symm.trans hp)

/-! ## Entries in another order -/

/-- Directories on the way out are seen where nothing lies. -/
theorem look_eq (t : FileTree) (q : List String) : t.look q =
    if sight (t.find? q) = .nothing ∧ isOutward q = true then .directory
    else sight (t.find? q) := by
  rw [look, seen?]
  cases t.find? q with
  | some u => cases u <;> rfl
  | none => cases isOutward q <;> rfl

/-- Trees that differ only by the order in which their directories hold the entries. -/
inductive Relisted : FileTree → FileTree → Prop
  | refl (t : FileTree) : Relisted t t
  | trans {t u v : FileTree} : Relisted t u → Relisted u v → Relisted t v
  | reorder {entries entries' : List (String × FileTree)} :
      entries.Perm entries' → Relisted (.directory entries) (.directory entries')
  | within {before after : List (String × FileTree)} {n : String} {t u : FileTree} :
      Relisted t u →
        Relisted (.directory (before ++ (n, t) :: after)) (.directory (before ++ (n, u) :: after))

namespace Relisted

/-- Each directory still has one entry of each name. -/
theorem wellFormed (h : Relisted t t') (ht : t.WellFormed) : t'.WellFormed := by
  induction h with
  | refl t => exact ht
  | trans _ _ ih ih' => exact ih' (ih ht)
  | reorder hperm =>
      cases ht with
      | directory distinct named each =>
          exact .directory ((hperm.map Prod.fst).nodup_iff.mp distinct)
            (fun e he => named e (hperm.mem_iff.mpr he)) fun e he => each e (hperm.mem_iff.mpr he)
  | @within before after n t u _ ih =>
      cases ht with
      | directory distinct named each =>
          have hold : (n, t) ∈ before ++ (n, t) :: after := by simp
          have hmem : ∀ e ∈ before ++ (n, u) :: after,
              e = (n, u) ∨ e ∈ before ++ (n, t) :: after := by
            intro e he
            simp only [List.mem_append, List.mem_cons] at he ⊢
            tauto
          refine .directory (by simpa using distinct) (fun e he => ?_) fun e he => ?_
          · rcases hmem e he with rfl | he
            · exact named (n, t) hold
            · exact named e he
          · rcases hmem e he with rfl | he
            · exact ih (each (n, t) hold)
            · exact each e he

/-- The entry with a name is the same wherever it stands. -/
theorem lookup_perm (hdistinct : (entries.map Prod.fst).Nodup) (h : entries.Perm entries')
    (n : String) : entries'.lookup n = entries.lookup n := by
  have hdistinct' := (h.map Prod.fst).nodup_iff.mp hdistinct
  refine Option.ext fun u => ?_
  constructor
  · exact fun hu => lookup_of_mem hdistinct (h.mem_iff.mpr (mem_of_lookup hu))
  · exact fun hu => lookup_of_mem hdistinct' (h.mem_iff.mp (mem_of_lookup hu))

/-- What lies at a position is a file with the same contents, a directory or nothing in both trees. -/
theorem sight_find? (h : Relisted t t') (ht : t.WellFormed) (p : List String) :
    sight (t'.find? p) = sight (t.find? p) := by
  induction h generalizing p with
  | refl t => rfl
  | trans hfirst _ ih ih' => rw [ih' (hfirst.wellFormed ht), ih ht]
  | reorder hperm =>
      cases p with
      | nil => rfl
      | cons n p =>
          cases ht with
          | directory distinct _ _ =>
              -- only with one entry of each name does it not matter which one stands first
              rw [find?_cons, find?_cons, lookup_perm distinct hperm]
  | @within before after n t u _ ih =>
      cases p with
      | nil => rfl
      | cons m p =>
          cases ht with
          | directory _ _ each =>
              rw [find?_cons, find?_cons, List.lookup_append, List.lookup_append]
              -- the changed entry is reached under its own name, and there the trees below it count
              cases before.lookup m with
              | some w => rfl
              | none =>
                  rw [Option.none_or, Option.none_or, List.lookup_cons, List.lookup_cons]
                  cases m == n with
                  | true => exact ih (each (n, t) (by simp)) p
                  | false => rfl

/-- **Trees look the same in whatever order directories hold their entries.** -/
theorem look (h : Relisted t t') (ht : t.WellFormed) (q : List String) : t'.look q = t.look q := by
  rw [look_eq, look_eq, h.sight_find? ht]

end Relisted

/-! ## The listed files -/

/-- **Listed files.** At a location that leads to a directory these are the files below it with the
    extension, in the order of their locations, whatever the order of the entries in directories. -/
theorem files_listed (ht : t.WellFormed) (hl : t.at? l = some (.directory entries))
    (extension : String) : ∃ files, t.filesWithExtension l extension = some files ∧
      (∀ f, f ∈ files ↔ ∃ names, (∀ n ∈ names, IsName n) ∧ f = locate l names ∧
        (∃ c, (directory entries).find? names = some (.file c)) ∧ f.extension = some extension) ∧
      files.Pairwise Location.Before ∧ files.Nodup ∧
      ∀ t', Relisted t t' → t'.filesWithExtension l extension = some files := by
  obtain ⟨p, hp, hseen⟩ : ∃ p, t.position l = .ok p ∧ t.seen? p = some (.directory entries) := by
    rw [at?] at hl
    split at hl
    · next p hp => exact ⟨p, hp, hl⟩
    · cases hl
  have hdirectory := look_directory.mpr ⟨entries, hseen⟩
  have hfiles := filesWithExtension_at hp hdirectory extension
  have hordered : ((t.found p extension).map (locate l)).Pairwise Location.Before := by
    rw [List.pairwise_map]
    exact (found_ordered ht).imp_of_mem fun hr hs hlt =>
      before_locate (isName_of_mem_found ht hr) (isName_of_mem_found ht hs) hlt
  refine ⟨_, hfiles, fun f => ?_, hordered, hordered.imp fun hbefore => hbefore.ne, fun t' h => ?_⟩
  · -- a directory is no file, so at least one name leads to a file below it
    have hne : ∀ {names : List String} {c}, (directory entries).find? names = some (.file c) →
        names ≠ [] := by
      rintro _ c hfind rfl
      cases hfind
    rw [List.mem_map]
    constructor
    · rintro ⟨names, hfound, rfl⟩
      obtain ⟨hnames, ⟨c, hfind⟩, hext⟩ := (mem_found_below ht hseen).mp hfound
      exact ⟨names, hnames, rfl, ⟨c, hfind⟩, (extension_locate l hnames (hne hfind)).trans hext⟩
    · rintro ⟨names, hnames, rfl, ⟨c, hfind⟩, hext⟩
      rw [extension_locate l hnames (hne hfind)] at hext
      exact ⟨names, (mem_found_below ht hseen).mpr ⟨hnames, ⟨c, hfind⟩, hext⟩, rfl⟩
  · rw [filesWithExtension_congr ht (h.wellFormed ht) (h.look ht), hfiles]

/-- A source directory with the module `ui` in two files, and a directory whose name ends like that of a
    file. -/
def listedTree : FileTree :=
  .directory
    [("gen.rs", .directory [("b.rs", .file (.text ""))]),
      ("ui", .directory [("mod.rs", .file (.text "")), ("notes.txt", .file (.text ""))]),
      ("ui.rs", .file (.text ""))]

/-- The same directory with its entries in another order. -/
def relistedTree : FileTree :=
  .directory
    [("ui.rs", .file (.text "")), ("gen.rs", .directory [("b.rs", .file (.text ""))]),
      ("ui", .directory [("notes.txt", .file (.text "")), ("mod.rs", .file (.text ""))])]

theorem listedTree_wellFormed : listedTree.WellFormed := by
  have hfile : (FileTree.file (.text "")).WellFormed := .file _
  have hnamed : ∀ {entries : List (String × FileTree)}, (∀ e ∈ entries, IsName e.1) →
      ∀ e ∈ entries, Inside e.1 → IsName e.1 := fun h e he _ => h e he
  refine .directory (by decide) (hnamed (by decide)) ?_
  simp only [List.forall_mem_cons]
  refine ⟨.directory (by decide) (hnamed (by decide)) ?_,
    .directory (by decide) (hnamed (by decide)) ?_, hfile, by simp⟩
  · simp [hfile]
  · simp [hfile]

theorem listedTree_relisted : listedTree.Relisted relistedTree := by
  have hswap : [("mod.rs", file (.text "")), ("notes.txt", file (.text ""))].Perm
      [("notes.txt", file (.text "")), ("mod.rs", file (.text ""))] := .swap _ _ _
  exact .trans (@Relisted.within [_] [_] "ui" _ _ (.reorder hswap))
    (.reorder (@List.perm_append_comm _ [_, _] [_]))

/-- The files of the tree, by the entries of each directory. -/
theorem files_listedTree : files listedTree =
    [(["gen.rs", "b.rs"], .text ""), (["ui", "mod.rs"], .text ""), (["ui", "notes.txt"], .text ""),
      (["ui.rs"], .text "")] := by
  have hfile : files (.file (.text "")) = [([], .text "")] := rfl
  have hgen : files (.directory [("b.rs", .file (.text ""))]) = [(["b.rs"], .text "")] := by
    rw [files, List.mergeSort_of_pairwise (by decide)]
    rfl
  have hui : files (.directory [("mod.rs", .file (.text "")), ("notes.txt", .file (.text ""))]) =
      [(["mod.rs"], .text ""), (["notes.txt"], .text "")] := by
    rw [files, List.mergeSort_of_pairwise (by decide)]
    rfl
  rw [listedTree, files, List.mergeSort_of_pairwise (by decide)]
  simp [filesOfEntries, hui, hgen, hfile, around, outermost, under]

/-- Both trees list the files of the directories first, since these have the lesser names. -/
theorem files_listed_ui :
    listedTree.WellFormed ∧ listedTree.at? ⟨"."⟩ = some listedTree ∧
      listedTree.Relisted relistedTree ∧
      listedTree.filesWithExtension ⟨"."⟩ "rs" =
        some [⟨"./gen.rs/b.rs"⟩, ⟨"./ui/mod.rs"⟩, ⟨"./ui.rs"⟩] ∧
      relistedTree.filesWithExtension ⟨"."⟩ "rs" =
        some [⟨"./gen.rs/b.rs"⟩, ⟨"./ui/mod.rs"⟩, ⟨"./ui.rs"⟩] := by
  have hat : listedTree.at? ⟨"."⟩ = some listedTree := rfl
  have hlist : listedTree.filesWithExtension ⟨"."⟩ "rs" =
      some [⟨"./gen.rs/b.rs"⟩, ⟨"./ui/mod.rs"⟩, ⟨"./ui.rs"⟩] := by
    have hfiles := files_listedTree
    rw [filesWithExtension, hat]
    simp only [listedTree] at hfiles ⊢
    rw [hfiles]
    decide +kernel
  obtain ⟨files, hfiles, -, -, -, hsame⟩ := files_listed listedTree_wellFormed hat "rs"
  exact ⟨listedTree_wellFormed, hat, listedTree_relisted, hlist,
    (hsame _ listedTree_relisted).trans (hfiles.symm.trans hlist)⟩

end FileTree

end ObservableStore
