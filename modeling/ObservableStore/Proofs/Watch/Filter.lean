import Mathlib.Data.Set.Finite.Basic
import ObservableStore.Proofs.Watch.Roots

/-!
# `Proofs.Watch.Filter` — when the filter on events tells sources from output

An event names its files behind the working directory and the source directory as that one is spelled.
The filter looks at the first file and compares components without resolving them, so whether it is right
hangs on the spellings. **The report is right for every event below a source directory exactly if** the
spellings of the output root that `outputRoots` finds cover that root where the events come by it
(`change?_exact_iff`): they do if the source directory is written without `..` and the output root is
there or written without `..` as well (`covers_of_plain`).

Shape of the argument. Components begin with those of a longer location by ending inside it or by going
on behind it (`prefix_append_iff`), for the spellings and for the places they stand for. A spelling that
goes on behind the source directory resolves to the output root, so it goes on with the same names
(`Covers.spelled_iff`). Conversely a file with a new name is reported just if its directory lies outside.
-/

namespace ObservableStore.Watch

open Location (IsName)

variable {w : WorkingDirectory} {out src p : Location} {roots : List Location} {e : Event}
variable {names : List String}

/-! ## What is reported -/

/-- The event can change a file below a source directory, and spells it with the directory as given. -/
structure Watched (w : WorkingDirectory) (src : Location) (e : Event) : Prop where
  changes : e.kind.changes = true
  below : ∀ p ∈ e.paths, ∃ names : List String, (∀ n ∈ names, IsName n) ∧
    p = names.foldl Location.push (w.location.join src)

/-- A source file, and none of those that are generated. -/
def IsSource (w : WorkingDirectory) (out p : Location) : Prop :=
  p.extension = some "rs" ∧ ¬ (w.location.join out).resolved <+: p.resolved

/-- **What is reported** is the first file, if no root begins it. -/
theorem change?_eq_some_iff : change? roots e = some p ↔
    e.kind.changes = true ∧ e.paths.head? = some p ∧ p.extension = some "rs" ∧
      ¬ ∃ l ∈ roots, l.components <+: p.components := by
  have hroots (q : Location) : (!roots.any q.startsWith) = true ↔
      ¬ ∃ l ∈ roots, l.components <+: q.components := by
    simp [Location.startsWith]
  rw [change?]
  by_cases hkind : e.kind.changes = true
  · rw [if_pos hkind]
    cases e.paths with
    | nil => simp
    | cons q rest =>
        simp only [Option.ite_none_right_eq_some, Bool.and_eq_true, decide_eq_true_eq, hroots,
          List.head?_cons, Option.some.injEq]
        constructor
        · rintro ⟨⟨hrust, hfree⟩, rfl⟩
          exact ⟨hkind, rfl, hrust, hfree⟩
        · rintro ⟨-, rfl, hrust, hfree⟩
          exact ⟨⟨hrust, hfree⟩, rfl⟩
  · rw [if_neg hkind]
    exact iff_of_false (fun h => nomatch h) fun h => hkind h.1

/-! ## Components that begin a location -/

/-- What begins a list in two parts ends in the first or goes on into the second. -/
theorem prefix_append_iff {α : Type} {xs front back : List α} : xs <+: front ++ back ↔
    xs <+: front ∨ ∃ more, more ≠ [] ∧ more <+: back ∧ xs = front ++ more := by
  constructor
  · rintro ⟨rest, heq⟩
    rcases List.append_eq_append_iff.mp heq with ⟨mid, rfl, -⟩ | ⟨mid, rfl, rfl⟩
    · exact Or.inl (List.prefix_append xs mid)
    · cases mid with
      | nil => exact Or.inl (by rw [List.append_nil])
      | cons x mid =>
          exact Or.inr ⟨x :: mid, List.cons_ne_nil x mid, List.prefix_append _ rest, rfl⟩
  · rintro (h | ⟨more, -, hmore, rfl⟩)
    · exact h.trans (List.prefix_append front back)
    · exact (List.prefix_append_right_inj front).mpr hmore

theorem prefix_names_iff {cs front : List Component} : cs <+: front ++ names.map .name ↔
    cs <+: front ∨ ∃ more, more ≠ [] ∧ more <+: names ∧ cs = front ++ more.map .name := by
  rw [prefix_append_iff]
  refine or_congr_right ⟨?_, ?_⟩
  · rintro ⟨more, hne, hmore, rfl⟩
    obtain ⟨more, hstarts, rfl⟩ := List.prefix_map_iff.mp hmore
    exact ⟨more, fun hnil => hne (by rw [hnil]; rfl), hstarts, rfl⟩
  · rintro ⟨more, hne, hmore, rfl⟩
    exact ⟨more.map .name, by simpa using hne, hmore.map _, rfl⟩

/-! ## Spellings that cover the output root -/

/-- The spellings of the output root cover it below a source directory: one of them begins the directory
    just if it lies in the root, and one goes on behind it to a root that lies in it. -/
structure Covers (w : WorkingDirectory) (out src : Location) : Prop where
  around : (∃ cs, Spelling w out cs ∧ cs <+: (w.location.join src).components) ↔
    (w.location.join out).resolved <+: (w.location.join src).resolved
  inside : ∀ names : List String, names ≠ [] →
    (w.location.join out).resolved = (w.location.join src).resolved ++ names →
    Spelling w out ((w.location.join src).components ++ names.map .name)

/-- A spelling that goes on behind the source directory leads to the output root by the same names. -/
theorem Spelling.resolved_behind (hw : w.Plain)
    (h : Spelling w out ((w.location.join src).components ++ names.map .name)) :
    (w.location.join out).resolved = (w.location.join src).resolved ++ names := by
  rw [← h.resolve_eq (by rw [List.head?_append, head?_join hw]; rfl), Location.resolve_append_names]
  rfl

/-- **Spellings that cover the root** begin just the files in it. -/
theorem Covers.spelled_iff (hw : w.Plain) (h : Covers w out src) (names : List String) :
    (∃ cs, Spelling w out cs ∧ cs <+: (w.location.join src).components ++ names.map .name) ↔
    (w.location.join out).resolved <+: (w.location.join src).resolved ++ names := by
  constructor
  · rintro ⟨cs, hcs, hstarts⟩
    rcases prefix_names_iff.mp hstarts with hstarts | ⟨more, -, hmore, rfl⟩
    · exact (h.around.mp ⟨cs, hcs, hstarts⟩).trans (List.prefix_append _ names)
    · rw [hcs.resolved_behind hw]
      exact (List.prefix_append_right_inj _).mpr hmore
  · intro hstarts
    rcases prefix_append_iff.mp hstarts with hstarts | ⟨more, hne, hmore, heq⟩
    · obtain ⟨cs, hcs, hbegins⟩ := h.around.mpr hstarts
      exact ⟨cs, hcs, hbegins.trans (List.prefix_append _ _)⟩
    · exact ⟨_, h.inside more hne heq, (List.prefix_append_right_inj _).mpr (hmore.map _)⟩

/-! ## Plain spellings -/

/-- A location without a step up is spelled as it resolves. -/
theorem components_of_plain (hw : w.Plain) {l : Location}
    (h : .up ∉ (w.location.join l).components) :
    (w.location.join l).components = .root :: (w.location.join l).resolved.map .name := by
  have hroot := head?_join hw l
  obtain ⟨above, names, heq, rfl | rfl | rfl⟩ := Location.components_plain h
  · cases names <;> simp [heq] at hroot
  · rw [Location.resolved, heq]
    exact congrArg (fun names => Component.root :: names.map .name) (Location.resolve_plain names).symm
  · simp [heq] at hroot

/-- **Plain spellings cover the output root**: the source directory is written without `..`, and the
    output root is there or written without `..` as well. -/
theorem covers_of_plain (hw : w.Plain) (hsrc : .up ∉ (w.location.join src).components)
    (hout : out.text ≠ "")
    (h : (canonical? w out).isSome = true ∨ .up ∉ (w.location.join out).components) :
    Covers w out src := by
  have hsource := components_of_plain hw hsrc
  have hplain : Spelling w out (.root :: (w.location.join out).resolved.map .name) := by
    rcases h with hthere | hup
    · exact .resolved hthere
    · rw [← components_of_plain hw hup]
      exact .absolute hout
  refine ⟨⟨?_, fun haround => ⟨_, hplain, ?_⟩⟩, fun names _ heq => ?_⟩
  · rintro ⟨cs, hcs, hstarts⟩
    rw [hsource, ← List.singleton_append, prefix_names_iff] at hstarts
    obtain ⟨more, hmore, rfl⟩ : ∃ more, more <+: (w.location.join src).resolved ∧
        cs = .root :: more.map .name := by
      rcases hstarts with hstarts | ⟨more, -, hmore, heq⟩
      · obtain ⟨c, rest, rfl⟩ := List.exists_cons_of_ne_nil (hcs.ne_nil hw hout)
        rw [List.cons_prefix_cons, List.prefix_nil] at hstarts
        exact ⟨[], List.nil_prefix, by rw [hstarts.1, hstarts.2]; rfl⟩
      · exact ⟨more, hmore, heq⟩
    rw [← hcs.resolve_eq rfl, Location.resolve_plain]
    exact hmore
  · rw [hsource]
    exact (List.prefix_cons_inj _).mpr (haround.map _)
  · rwa [heq, List.map_append, ← List.cons_append, ← hsource] at hplain

/-! ## New names -/

/-- A name of a Rust file, one for each length. -/
def rustName (k : Nat) : String :=
  String.ofList (List.replicate (k + 1) 'x' ++ ['.', 'r', 's'])

theorem toList_rustName (k : Nat) :
    (rustName k).toList = List.replicate (k + 1) 'x' ++ ['.', 'r', 's'] :=
  String.toList_ofList

theorem length_rustName (k : Nat) : (rustName k).toList.length = k + 4 := by
  rw [toList_rustName, List.length_append, List.length_replicate]
  rfl

theorem isName_rustName (k : Nat) : IsName (rustName k) := by
  have hlong (s : String) (hs : s.toList.length < 4) : rustName k ≠ s := by
    rintro rfl
    rw [length_rustName] at hs
    omega
  have hslash : '/' ∉ (rustName k).toList := by
    rw [toList_rustName]
    simp [List.mem_replicate]
  exact ⟨hlong "" (by decide), hslash, hlong "." (by decide), hlong ".." (by decide)⟩

theorem extensionOf_rustName (k : Nat) : Location.extensionOf (rustName k) = some "rs" := by
  rw [Location.extensionOf, Location.splitName, toList_rustName, List.replicate_succ]
  simp

theorem rustName_injective : Function.Injective rustName := by
  intro j k heq
  have hlength := congrArg (fun s : String => s.toList.length) heq
  simp only [length_rustName] at hlength
  omega

/-- There is always another name for a source file. -/
theorem exists_new_name (taken : List String) :
    ∃ n, IsName n ∧ Location.extensionOf n = some "rs" ∧ n ∉ taken := by
  obtain ⟨n, ⟨k, rfl⟩, hnew⟩ :=
    (Set.infinite_range_of_injective rustName_injective).exists_notMem_finset taken.toFinset
  exact ⟨rustName k, isName_rustName k, extensionOf_rustName k, by simpa using hnew⟩

theorem prefix_new_iff {α : Type} {xs front : List α} {x : α} (hx : x ∉ xs) :
    xs <+: front ++ [x] ↔ xs <+: front := by
  rw [List.prefix_concat_iff]
  refine or_iff_right fun h => hx ?_
  rw [h]
  exact List.mem_concat_self

/-! ## When the report is right -/

/-- The filter reports an event below a source directory just if its first file is a source file. -/
def Exact (w : WorkingDirectory) (out src : Location) : Prop :=
  ∀ e, Watched w src e →
    ((change? (outputRoots w out) e).isSome = true ↔ ∃ p ∈ e.paths.head?, IsSource w out p)

/-- An event is reported just if its first file is a Rust file that no spelling begins. -/
theorem isSome_change?_iff (hw : w.Plain) (h : e.kind.changes = true) :
    (change? (outputRoots w out) e).isSome = true ↔ ∃ p ∈ e.paths.head?,
      p.extension = some "rs" ∧ ¬ ∃ cs, Spelling w out cs ∧ cs <+: p.components := by
  have hspelled (ds : List Component) : (∃ l ∈ outputRoots w out, l.components <+: ds) ↔
      ∃ cs, Spelling w out cs ∧ cs <+: ds := by
    simp only [← components_outputRoots hw]
    constructor
    · rintro ⟨l, hl, hstarts⟩
      exact ⟨_, ⟨l, hl, rfl⟩, hstarts⟩
    · rintro ⟨_, ⟨l, hl, rfl⟩, hstarts⟩
      exact ⟨l, hl, hstarts⟩
  simp only [Option.isSome_iff_exists, change?_eq_some_iff, h, true_and, Option.mem_def, hspelled]

theorem resolved_foldl_push (l : Location) (h : ∀ n ∈ names, IsName n) :
    (names.foldl Location.push l).resolved = l.resolved ++ names := by
  rw [Location.resolved, Location.components_foldl_push l h, Location.resolve_append_names]
  rfl

/-- Where the spellings cover the root, the report is right. -/
theorem Covers.exact (hw : w.Plain) (h : Covers w out src) : Exact w out src := by
  intro e he
  rw [isSome_change?_iff hw he.changes]
  refine exists_congr fun p => and_congr_right fun hp => and_congr_right fun _ => not_congr ?_
  obtain ⟨names, hnames, rfl⟩ := he.below p (List.mem_of_mem_head? hp)
  rw [Location.components_foldl_push _ hnames, resolved_foldl_push _ hnames]
  exact h.spelled_iff hw names

namespace Exact

/-- Where the report is right, the spellings begin just the Rust files that lie in the root. -/
theorem file_iff (hw : w.Plain) (h : Exact w out src) {x : String}
    (hfile : ∀ n ∈ names ++ [x], IsName n) (hrust : Location.extensionOf x = some "rs") :
    (∃ cs, Spelling w out cs ∧
      cs <+: (w.location.join src).components ++ (names ++ [x]).map .name) ↔
    (w.location.join out).resolved <+: (w.location.join src).resolved ++ (names ++ [x]) := by
  rw [← Location.components_foldl_push _ hfile, ← resolved_foldl_push _ hfile]
  generalize hpath : (names ++ [x]).foldl Location.push (w.location.join src) = path
  have hextension : path.extension = some "rs" := by
    rw [← hpath, Location.extension_foldl_push _ hfile]
    exact hrust
  have hreport := h ⟨.modify, [path]⟩ ⟨rfl, List.forall_mem_singleton.mpr ⟨_, hfile, hpath.symm⟩⟩
  rw [isSome_change?_iff hw rfl] at hreport
  simpa only [List.head?_cons, Option.mem_def, Option.some.injEq, exists_eq_left', IsSource,
    hextension, true_and, not_iff_not] using hreport

/-- Where the report is right, the spellings begin just what lies in the root: a new source file in a
    directory is reported just if the directory lies outside. -/
theorem spelled_iff (hw : w.Plain) (h : Exact w out src) (hnames : ∀ n ∈ names, IsName n) :
    (∃ cs, Spelling w out cs ∧ cs <+: (w.location.join src).components ++ names.map .name) ↔
    (w.location.join out).resolved <+: (w.location.join src).resolved ++ names := by
  obtain ⟨x, hx, hrust, hnew⟩ := exists_new_name ((w.location.join out).resolved ++
    (outputRoots w out).flatMap fun l => l.components.map Component.text)
  rw [List.mem_append, not_or, List.mem_flatMap] at hnew
  have hunspelled : ∀ cs, Spelling w out cs → .name x ∉ cs := by
    intro cs hcs hmem
    obtain ⟨l, hl, rfl⟩ := (components_outputRoots hw out cs).mpr hcs
    exact hnew.2 ⟨l, hl, List.mem_map_of_mem hmem⟩
  have hfile := h.file_iff hw
    (List.forall_mem_append.mpr ⟨hnames, List.forall_mem_singleton.mpr hx⟩) hrust
  rw [List.map_append, List.map_singleton, ← List.append_assoc, ← List.append_assoc,
    prefix_new_iff hnew.1] at hfile
  rw [← hfile]
  exact exists_congr fun cs => and_congr_right fun hcs => (prefix_new_iff (hunspelled cs hcs)).symm

/-- Where the report is right, the spellings cover the root. -/
theorem covers (hw : w.Plain) (h : Exact w out src) : Covers w out src := by
  have haround : (∃ cs, Spelling w out cs ∧ cs <+: (w.location.join src).components) ↔
      (w.location.join out).resolved <+: (w.location.join src).resolved := by
    have hspelled := h.spelled_iff hw (List.forall_mem_nil _)
    rwa [List.map_nil, List.append_nil, List.append_nil] at hspelled
  refine ⟨haround, fun names hne heq => ?_⟩
  have hnames : ∀ n ∈ names, IsName n := fun n hn => Location.isName_of_mem_resolved
    (heq ▸ List.mem_append_right _ hn)
  obtain ⟨cs, hcs, hstarts⟩ := (h.spelled_iff hw hnames).mpr (heq ▸ List.prefix_rfl)
  rcases prefix_names_iff.mp hstarts with hstarts | ⟨more, -, -, rfl⟩
  · -- the root would lie around the source directory as well
    have hlength := (haround.mp ⟨cs, hcs, hstarts⟩).length_le
    have hpos := List.length_pos_of_ne_nil hne
    rw [heq, List.length_append] at hlength
    omega
  · rwa [← List.append_cancel_left ((hcs.resolved_behind hw).symm.trans heq)]

end Exact

/-- **When the filter is right.** For every output directory and every source directory, however they
    are spelled, the events below the source directory are reported just if their first file is a Rust
    file outside the output directory, exactly if the spellings of the output directory cover it. They do
    if the source directory is written without `..`, and the output directory is there or written
    without `..` as well. -/
theorem change?_exact_iff (hw : w.Plain) (out src : Location) :
    ((∀ e, Watched w src e →
        ((change? (outputRoots w out) e).isSome = true ↔ ∃ p ∈ e.paths.head?, IsSource w out p)) ↔
      Covers w out src) ∧
    (.up ∉ (w.location.join src).components → out.text ≠ "" →
      (canonical? w out).isSome = true ∨ .up ∉ (w.location.join out).components →
      Covers w out src) :=
  ⟨⟨Exact.covers hw, Covers.exact hw⟩, covers_of_plain hw⟩

/-! ## Instances -/

instance : Decidable (IsSource w out p) := inferInstanceAs (Decidable (_ ∧ ¬ _))

/-- A working directory with an output directory beside the sources and one among them. -/
def work : WorkingDirectory where
  location := ⟨"/work"⟩
  tree := .directory [("gen", .empty), ("src", .directory [("gen", .empty)]), ("x", .empty)]

theorem work_plain : work.Plain := ⟨["work"], by decide⟩

/-- The spelling of the output directory goes around, but it is there. -/
theorem change?_exact_work : work.Plain ∧ Covers work ⟨"x/../src/gen"⟩ ⟨"./src"⟩ ∧
    ∀ e, Watched work ⟨"./src"⟩ e →
      ((change? (outputRoots work ⟨"x/../src/gen"⟩) e).isSome = true ↔
        ∃ p ∈ e.paths.head?, IsSource work ⟨"x/../src/gen"⟩ p) := by
  obtain ⟨hexact, hplain⟩ := change?_exact_iff work_plain ⟨"x/../src/gen"⟩ ⟨"./src"⟩
  have hcovers := hplain (by decide) (by decide) (Or.inl (by decide))
  exact ⟨work_plain, hcovers, hexact.mpr hcovers⟩

/-- **The filter goes by spellings and by the first file.** Output that is seen through a source
    directory with `..` in it is reported. A source file is not if the event names another file first, or
    if the directory is written through the output directory. -/
theorem filter_misleads :
    (∃ e, Watched work ⟨"x/../src"⟩ e ∧
      (change? (outputRoots work ⟨"src/gen"⟩) e).isSome = true ∧
      ¬ ∃ p ∈ e.paths, IsSource work ⟨"src/gen"⟩ p) ∧
    (∃ e, Watched work ⟨"src"⟩ e ∧ (change? (outputRoots work ⟨"gen"⟩) e).isSome = false ∧
      ∃ p ∈ e.paths, IsSource work ⟨"gen"⟩ p) ∧
    ∃ e, Watched work ⟨"gen/../src"⟩ e ∧ (change? (outputRoots work ⟨"gen"⟩) e).isSome = false ∧
      ∃ p ∈ e.paths, IsSource work ⟨"gen"⟩ p := by
  refine ⟨⟨⟨.create, [⟨"/work/x/../src/gen/page_store.rs"⟩]⟩, ⟨rfl, ?_⟩, by decide, by decide⟩,
    ⟨⟨.modify, [⟨"/work/src/page.rs.tmp"⟩, ⟨"/work/src/page.rs"⟩]⟩, ⟨rfl, ?_⟩, by decide, by decide⟩,
    ⟨⟨.create, [⟨"/work/gen/../src/page.rs"⟩]⟩, ⟨rfl, ?_⟩, by decide, by decide⟩⟩
  · exact List.forall_mem_singleton.mpr ⟨["gen", "page_store.rs"], by decide, by decide⟩
  · refine List.forall_mem_cons.mpr ⟨⟨["page.rs.tmp"], by decide, by decide⟩, ?_⟩
    exact List.forall_mem_singleton.mpr ⟨["page.rs"], by decide, by decide⟩
  · exact List.forall_mem_singleton.mpr ⟨["page.rs"], by decide, by decide⟩

end ObservableStore.Watch
