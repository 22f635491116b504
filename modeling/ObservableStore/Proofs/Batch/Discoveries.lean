import ObservableStore.Batch
import ObservableStore.Proofs.Describe
import ObservableStore.Proofs.Sink.Output
import ObservableStore.Proofs.Text.SnakeCase

/-!
# `Proofs.Batch.Discoveries` — a batch over directories as one list of deliveries

A batch reads its source files while it writes. Where the output root and the source directories lie
apart (`Apart`), writing does not change what is read (`discoverDirectory_grown`): the batch delivers
what the sources held before it began (`discoveries`), one declaration after another, and reports
their errors (`finalState_eq`). All that becomes of the tree is that entries were added near the
output root (`deliverAll_grown`), and what was taken is in its files (`deliverAll_recorded`).
-/

namespace ObservableStore

open FileTree DirectorySink

open Location (IsName)

/-! ## Deliveries -/

/-- The segments of the namespace of a declaration can be names of directories. -/
def Root.Placed (r : Root) : Prop := ∀ n ∈ r.home.segments, IsName n

instance (r : Root) : Decidable r.Placed :=
  inferInstanceAs (Decidable (∀ n ∈ r.home.segments, IsName n))

/-- Delivers store roots to a directory. -/
abbrev deliverThere (o : EmitOptions) (state : Report × DirectorySink × FileTree)
    (roots : List Root) : Report × DirectorySink × FileTree :=
  deliverAll DirectorySink.destination o state roots

section

variable {o : EmitOptions} {report : Report} {s : DirectorySink} {t : FileTree} {r : Root}
variable {roots : List Root} {base names : List String} {taken : List GeneratedUnit}

/-- The unit of a declaration can be written where its namespace says. -/
theorem ordinary_emit {d : StoreDescription} (h : r.describe = .ok d) (hr : r.Placed) :
    (d.emit o).Ordinary := by
  obtain ⟨-, -, hhome, -⟩ := Root.describe_ok h
  refine ⟨?_, isName_wrapperFileName _⟩
  show ∀ n ∈ d.home.segments, IsName n
  rw [hhome]
  exact hr

/-- What a sink makes of the unit of a description. -/
def outcomeOf (d : StoreDescription) (u : GeneratedUnit) :
    Option SinkError → Except Failure GeneratedUnit
  | none => .ok u
  | some e => .error ⟨d.home, d.root, .outputWrite u.name e⟩

theorem deliver_undescribed {σ : Type} {sink : Destination σ} {s : σ} {f : Failure}
    (h : r.describe = .error f) : deliver sink o s r = (.error f, s) := by
  rw [deliver, h]

/-- A delivery with a description is a write. -/
theorem deliver_described {σ : Type} {sink : Destination σ} {s : σ} {d : StoreDescription}
    (h : r.describe = .ok d) : deliver sink o s r =
      (outcomeOf d (d.emit o) (sink s (d.emit o)).1, (sink s (d.emit o)).2) := by
  rw [deliver, h]
  cases hsink : sink s (d.emit o) with
  | mk fault s' => cases fault <;> simp only [hsink, outcomeOf]

/-- A delivery to a directory with a description is a write to it. -/
theorem deliver_written {d : StoreDescription} (h : r.describe = .ok d) :
    deliver destination o (s, t) r =
      (outcomeOf d (d.emit o) (s.write t (d.emit o)).1, (s.write t (d.emit o)).2) :=
  deliver_described h

theorem deliver_root (o : EmitOptions) (s : DirectorySink) (t : FileTree) (r : Root) :
    (deliver destination o (s, t) r).2.1.root = s.root := by
  cases hd : r.describe with
  | error f => rw [deliver_undescribed hd]
  | ok d =>
      rw [deliver_written hd]
      exact write_root s t (d.emit o)

/-- A delivery only adds entries near the output root. -/
theorem deliver_grown (h : Anchored t s.root.components base names) (hr : r.Placed) :
    Grown (Added s.root (base ++ names)) t (deliver destination o (s, t) r).2.2 := by
  cases hd : r.describe with
  | error f =>
      rw [deliver_undescribed hd]
  | ok d =>
      rw [deliver_written hd]
      exact write_grown h (ordinary_emit hd hr)

/-- The units that were taken are still in their files after a delivery, and so is the new one if it
    was taken. -/
theorem deliver_recorded (h : Recorded s t taken) (hr : r.Placed) :
    ∃ more, Recorded (deliver destination o (s, t) r).2.1 (deliver destination o (s, t) r).2.2
        (taken ++ more) ∧
      ∀ u, (deliver destination o (s, t) r).1 = .ok u → u ∈ more := by
  cases hd : r.describe with
  | error f =>
      rw [deliver_undescribed hd]
      exact ⟨[], by rwa [List.append_nil], fun _ heq => by cases heq⟩
  | ok d =>
      rw [deliver_written hd]
      rcases h.write (ordinary_emit (o := o) hd hr) with
        ⟨e, t', hwrite, hrecorded⟩ | ⟨wasThere, t', hwrite, hrecorded⟩
      · rw [hwrite]
        exact ⟨[], by rwa [List.append_nil], fun _ heq => by cases heq⟩
      · rw [hwrite]
        exact ⟨[d.emit o], hrecorded, fun u hu => by simpa using (Except.ok.inj hu).symm⟩

/-- **Deliveries only add entries near the output root.** -/
theorem deliverAll_grown (o : EmitOptions) (report : Report)
    (h : Anchored t s.root.components base names)
    (hroots : ∀ r ∈ roots, r.Placed) :
    (deliverThere o (report, s, t) roots).2.1.root = s.root ∧
      Grown (Added s.root (base ++ names)) t (deliverThere o (report, s, t) roots).2.2 := by
  induction roots generalizing report s t with
  | nil => exact ⟨rfl, .refl⟩
  | cons r rest ih =>
      have hr := hroots r List.mem_cons_self
      have hroot := deliver_root o s t r
      have hgrown := deliver_grown (o := o) h hr
      obtain ⟨hroot', hgrown'⟩ := ih (report.add (deliver destination o (s, t) r).1)
        (hroot.symm ▸ h.grown hgrown) fun r' hr' => hroots r' (List.mem_cons_of_mem r hr')
      rw [hroot] at hroot' hgrown'
      exact ⟨hroot', hgrown.trans hgrown'⟩

/-- What was taken is in its files at the end. -/
theorem deliverAll_recorded (o : EmitOptions) (report : Report)
    (h : Recorded s t taken) (hroots : ∀ r ∈ roots, r.Placed) :
    ∃ more, Recorded (deliverThere o (report, s, t) roots).2.1
      (deliverThere o (report, s, t) roots).2.2 (taken ++ more) := by
  induction roots generalizing report s t taken with
  | nil => exact ⟨[], by rwa [List.append_nil]⟩
  | cons r rest ih =>
      obtain ⟨first, hfirst, -⟩ := deliver_recorded (o := o) h (hroots r List.mem_cons_self)
      obtain ⟨more, hmore⟩ := ih (report.add (deliver destination o (s, t) r).1) hfirst
        fun r' hr' => hroots r' (List.mem_cons_of_mem r hr')
      rw [List.append_assoc] at hmore
      exact ⟨first ++ more, hmore⟩

end

/-! ## Discoveries -/

namespace Report

/-- A report with further errors of sources. -/
def withErrors (r : Report) (errors : List SourceError) : Report :=
  { r with sourceErrors := r.sourceErrors ++ errors }

theorem withErrors_withErrors (r : Report) (first more : List SourceError) :
    (r.withErrors first).withErrors more = r.withErrors (first ++ more) := by
  rw [withErrors, withErrors, withErrors, List.append_assoc]

theorem withErrors_nil (r : Report) : r.withErrors [] = r := by
  rw [withErrors, List.append_nil]

/-- Outcomes and errors of sources are listed apart. -/
theorem add_withErrors (r : Report) (errors : List SourceError)
    (outcome : Except Failure GeneratedUnit) :
    (r.withErrors errors).add outcome = (r.add outcome).withErrors errors := by
  cases outcome <;> rfl

end Report

theorem deliverAll_withErrors {σ : Type} (sink : Destination σ) (o : EmitOptions) (report : Report)
    (errors : List SourceError) (s : σ) (roots : List Root) :
    deliverAll sink o (report.withErrors errors, s) roots =
      ((deliverAll sink o (report, s) roots).1.withErrors errors,
        (deliverAll sink o (report, s) roots).2) := by
  induction roots generalizing report s with
  | nil => rfl
  | cons r rest ih =>
      simp only [deliverAll, Report.add_withErrors]
      exact ih _ _

namespace Generator

variable {g : Generator} {root : Location} {t t' : FileTree} {place : List String}
variable {directory file : Location}

/-- What a file of a source directory gives: its declarations, or an error. -/
def discoverFile (g : Generator) (t : FileTree) (directory file : Location) :
    List (Except SourceError Root) :=
  match g.rootsOfFile t directory file with
  | .ok roots => roots.map .ok
  | .error e => [.error e]

/-- What a source directory gives. -/
def discoverDirectory (g : Generator) (t : FileTree) (directory : Location) :
    List (Except SourceError Root) :=
  match t.filesWithExtension directory "rs" with
  | none => [.error (.missingDirectory directory)]
  | some files => files.flatMap (g.discoverFile t directory)

/-- What the sources of a batch hold: the marked declarations of each readable, well-formed file, and
    an error for each missing directory and for each other file, in the order of the batch. -/
def discoveries (g : Generator) (t : FileTree) : List (Except SourceError Root) :=
  g.sourceDirectories.flatMap (g.discoverDirectory t)

/-- The declarations among discoveries. -/
def rootsOf (found : List (Except SourceError Root)) : List Root :=
  found.filterMap fun x => x.toOption

/-- The errors among discoveries. -/
def errorsOf (found : List (Except SourceError Root)) : List SourceError :=
  found.filterMap fun
    | .ok _ => none
    | .error e => some e

/-- The state of a batch after some discoveries. -/
def take (g : Generator) (state : State) (found : List (Except SourceError Root)) : State :=
  let delivered := deliverThere g.options state (rootsOf found)
  (delivered.1.withErrors (errorsOf found), delivered.2)

theorem deliverThere_append (o : EmitOptions) (state : State) (first more : List Root) :
    deliverThere o state (first ++ more) = deliverThere o (deliverThere o state first) more := by
  induction first generalizing state with
  | nil => rfl
  | cons r rest ih =>
      obtain ⟨report, s⟩ := state
      exact ih _

theorem rootsOf_append (first more : List (Except SourceError Root)) :
    rootsOf (first ++ more) = rootsOf first ++ rootsOf more :=
  List.filterMap_append

theorem errorsOf_append (first more : List (Except SourceError Root)) :
    errorsOf (first ++ more) = errorsOf first ++ errorsOf more :=
  List.filterMap_append

theorem take_append (g : Generator) (state : State) (first more : List (Except SourceError Root)) :
    g.take state (first ++ more) = g.take (g.take state first) more := by
  rw [take, take, take, rootsOf_append, errorsOf_append, deliverThere_append]
  simp only [deliverThere, deliverAll_withErrors, Report.withErrors_withErrors]

theorem rootsOf_map (roots : List Root) : rootsOf (roots.map .ok) = roots := by
  induction roots with
  | nil => rfl
  | cons r rest ih => exact congrArg (r :: ·) ih

theorem errorsOf_map (roots : List Root) : errorsOf (roots.map .ok) = [] := by
  induction roots with
  | nil => rfl
  | cons r rest ih => exact ih

/-- To run a file is to take what it gives. -/
theorem runFile_eq (g : Generator) (directory : Location) (state : State) (file : Location) :
    g.runFile directory state file = g.take state (g.discoverFile state.2.2 directory file) := by
  rw [runFile, discoverFile]
  cases g.rootsOfFile state.2.2 directory file with
  | ok roots =>
      simp only [take, rootsOf_map, errorsOf_map, Report.withErrors_nil]
  | error e => rfl

/-! ## Sources apart from the output -/

/-- A location stands for a place, and neither this one nor that of the output root is below the
    other, or it leads nowhere whatever is written near the output root. -/
inductive Aside (t : FileTree) (place : List String) (l : Location) : Prop
  | stands (source : List String) (h : t.Stands l source) (hsource : ¬ Below source place)
      (hplace : ¬ Below place source)
  | nowhere (h : t.LeadsNowhere (Near place) l)

/-- The output root stands for a place and each source directory lies aside of it, in a tree whose
    directories have one entry of each name. -/
structure Apart (g : Generator) (root : Location) (t : FileTree) (place : List String) : Prop where
  form : t.WellFormed
  output : t.Stands root place
  sources : ∀ l ∈ g.sourceDirectories, Aside t place l

/-- Whether the output root and the source directories, as they are written, do not lie at or below
    each other. -/
def apartAsWritten (g : Generator) (root : Location) : Bool :=
  g.sourceDirectories.all fun l => !root.startsWith l && !l.startsWith root

/-- What is near the output root is not below a source directory. -/
theorem not_near {source q : List String} (hsource : ¬ Below source place)
    (hplace : ¬ Below place source) (hq : Below source q) : ¬ Near place q := by
  rintro (hnear | hnear)
  · exact hsource (hq.trans hnear)
  · rcases hnear.comparable hq with h | h
    · exact hplace h
    · exact hsource h

theorem look_source (hg : Grown (Added root place) t t') {source q : List String}
    (hsource : ¬ Below source place) (hplace : ¬ Below place source) (hq : Below source q) :
    t'.look q = t.look q :=
  hg.same fun _ hadded => not_near hsource hplace hq hadded.near

section

variable (h : g.Apart root t place) (hg : Grown (Added root place) t t')
include h hg

theorem Apart.form_grown : t'.WellFormed := hg.wellFormed (fun _ _ hadded => hadded.isName) h.form

theorem Apart.grown : g.Apart root t' place where
  form := h.form_grown hg
  output := h.output.grown hg
  sources l hl := by
    cases h.sources l hl with
    | stands source hstands hsource hplace =>
        exact .stands source (hstands.grown hg) hsource hplace
    | nowhere hnowhere =>
        exact .nowhere (hnowhere.grown hg fun _ _ hadded => hadded.near)

/-- **A source directory gives the same after entries were added near the output root.** -/
theorem discoverDirectory_grown (hd : directory ∈ g.sourceDirectories) :
    t'.filesWithExtension directory "rs" = t.filesWithExtension directory "rs" ∧
      ∀ files, t.filesWithExtension directory "rs" = some files → ∀ file ∈ files,
        g.discoverFile t' directory file = g.discoverFile t directory file := by
  cases h.sources directory hd with
  | nowhere hnowhere =>
      have hnowhere' := hnowhere.grown hg fun _ _ hadded => hadded.near
      refine ⟨?_, fun files hfiles => ?_⟩
      · rw [hnowhere.filesWithExtension, hnowhere'.filesWithExtension]
      · rw [hnowhere.filesWithExtension] at hfiles
        cases hfiles
  | stands source hstands hsource hplace =>
      obtain ⟨base, names, hanchored, rfl⟩ := hstands
      have hanchored' := hanchored.grown hg
      have hsame := fun q hq => look_source hg (q := q) hsource hplace hq
      have hfound : t'.found (base ++ names) "rs" = t.found (base ++ names) "rs" :=
        found_congr h.form (h.form_grown hg) hsame
      refine ⟨?_, fun files hfiles file hfile => ?_⟩
      · rw [filesWithExtension_eq hanchored, filesWithExtension_eq hanchored', hsame _ (.refl _),
          hfound]
      · -- a file that was found holds what it held
        rw [filesWithExtension_eq hanchored] at hfiles
        split at hfiles
        · obtain rfl := Option.some.inj hfiles
          obtain ⟨more, hmore, rfl⟩ := List.mem_map.mp hfile
          obtain ⟨-, ⟨c, hc⟩, hinside, -⟩ := (mem_found h.form).mp hmore
          have hnames := isName_of_mem_found h.form hmore
          have hread : t'.readText (locate directory more) = t.readText (locate directory more) := by
            rw [List.append_assoc] at hc
            refine readText_congr (anchored_locate hanchored hnames)
              (anchored_locate hanchored' hnames) hc ?_
            rw [← List.append_assoc]
            exact hsame _ ⟨more, hinside, rfl⟩
          rw [discoverFile, discoverFile, rootsOfFile, rootsOfFile, hread]
        · cases hfiles

theorem discoveries_grown : g.discoveries t' = g.discoveries t := by
  refine List.flatMap_congr fun directory hd => ?_
  obtain ⟨hlisted, hfile⟩ := discoverDirectory_grown h hg hd
  rw [discoverDirectory, discoverDirectory, hlisted]
  cases hfiles : t.filesWithExtension directory "rs" with
  | none => rfl
  | some files => exact List.flatMap_congr (hfile files hfiles)

end

/-! ## The whole batch -/

/-- The state of a batch has the output root, and its tree has grown near it only. -/
structure Running (root : Location) (t : FileTree) (place : List String) (state : State) :
    Prop where
  atRoot : state.2.1.root = root
  grown : Grown (Added root place) t state.2.2

/-- The state stays so while declarations are delivered. -/
theorem Running.take {state : State} (h : Running root t place state) (hstands : t.Stands root place)
    {found : List (Except SourceError Root)} (hplaced : ∀ r ∈ rootsOf found, r.Placed) :
    Running root t place (g.take state found) := by
  obtain ⟨report, s, t'⟩ := state
  obtain ⟨hroot, hgrown⟩ := h
  obtain ⟨base, names, hanchored, rfl⟩ := hstands
  simp only at hroot hgrown
  subst hroot
  obtain ⟨hroot', hgrown'⟩ :=
    deliverAll_grown g.options report (hanchored.grown hgrown) hplaced
  exact ⟨hroot', hgrown.trans hgrown'⟩

variable {state : State}

/-- All declarations that a batch discovers have namespaces that can be written as directories. -/
def Placed (g : Generator) (t : FileTree) : Prop := ∀ r ∈ rootsOf (g.discoveries t), r.Placed

/-- Files of a source directory are taken one after another as they were at first. -/
theorem runFiles_eq (h : g.Apart root t place) (hrun : Running root t place state)
    (hd : directory ∈ g.sourceDirectories) {all files : List Location}
    (hall : t.filesWithExtension directory "rs" = some all) (hfiles : files ⊆ all)
    (hplaced : ∀ r ∈ rootsOf (files.flatMap (g.discoverFile t directory)), r.Placed) :
    files.foldl (g.runFile directory) state =
      g.take state (files.flatMap (g.discoverFile t directory)) := by
  induction files generalizing state with
  | nil =>
      obtain ⟨report, s⟩ := state
      exact congrArg (·, s) (Report.withErrors_nil report).symm
  | cons file rest ih =>
      obtain ⟨-, hsame⟩ := discoverDirectory_grown h hrun.grown hd
      have hfile := hsame all hall file (hfiles List.mem_cons_self)
      rw [List.flatMap_cons, rootsOf_append] at hplaced
      obtain ⟨hfirst, hrest⟩ := List.forall_mem_append.mp hplaced
      rw [List.foldl_cons, runFile_eq, hfile, List.flatMap_cons, take_append]
      exact ih (hrun.take h.output hfirst) (fun x hx => hfiles (List.mem_cons_of_mem file hx)) hrest

/-- A source directory is taken as it was at first. -/
theorem runDirectory_eq (h : g.Apart root t place) (hrun : Running root t place state)
    (hd : directory ∈ g.sourceDirectories)
    (hplaced : ∀ r ∈ rootsOf (g.discoverDirectory t directory), r.Placed) :
    g.runDirectory state directory = g.take state (g.discoverDirectory t directory) := by
  obtain ⟨hlisted, -⟩ := discoverDirectory_grown h hrun.grown hd
  rw [runDirectory, hlisted]
  rw [discoverDirectory] at hplaced ⊢
  cases hfiles : t.filesWithExtension directory "rs" with
  | none => rfl
  | some files =>
      rw [hfiles] at hplaced
      exact runFiles_eq h hrun hd hfiles (List.Subset.refl files) hplaced

theorem runDirectories_eq (h : g.Apart root t place) (hrun : Running root t place state)
    {directories : List Location} (hd : directories ⊆ g.sourceDirectories)
    (hplaced : ∀ r ∈ rootsOf (directories.flatMap (g.discoverDirectory t)), r.Placed) :
    directories.foldl g.runDirectory state =
      g.take state (directories.flatMap (g.discoverDirectory t)) := by
  induction directories generalizing state with
  | nil =>
      obtain ⟨report, s⟩ := state
      exact congrArg (·, s) (Report.withErrors_nil report).symm
  | cons directory rest ih =>
      rw [List.flatMap_cons, rootsOf_append] at hplaced
      obtain ⟨hfirst, hrest⟩ := List.forall_mem_append.mp hplaced
      rw [List.foldl_cons, runDirectory_eq h hrun (hd List.mem_cons_self) hfirst, List.flatMap_cons,
        take_append]
      exact ih (hrun.take h.output hfirst) (fun x hx => hd (List.mem_cons_of_mem directory hx)) hrest

theorem run_eq (g : Generator) (root : Location) (t : FileTree) :
    g.run root t = ((g.finalState root t).1, (g.finalState root t).2.2) := rfl

/-- A batch whose output root is known runs to its end. -/
theorem generate_eq {environment : Option String} (hroot : g.outputRoot? environment = some root)
    (t : FileTree) : g.generate environment t =
      .ok ((g.finalState root t).1, (g.finalState root t).2.2) := by
  rw [generate, hroot, ← run_eq]

/-- **A batch delivers what its sources held before it began**, in order. -/
theorem finalState_eq (h : g.Apart root t place) (hplaced : g.Placed t) :
    g.finalState root t = g.take (Report.empty, DirectorySink.new root, t) (g.discoveries t) :=
  runDirectories_eq h ⟨rfl, .refl⟩ (List.Subset.refl _) hplaced

/-! ## Instances -/

/-- A batch over some directories with an output root. -/
def overSources (sources : List String) (output : String) : Generator :=
  { standard with sources := sources.map Location.mk, output := some ⟨output⟩ }

/-- A directory with a source file, and one without. -/
def detourTree : FileTree :=
  .directory [("a", .directory [("lib.rs", .file (.text "#[flow_store] struct A;"))]),
    ("b", .directory [("notes.txt", .file (.text ""))])]

/-- A batch over two directories and a location that leads nowhere, with an output root beside
    them. -/
def beside : Generator := overSources ["a", "b", "c/../a"] "gen"

/-- A directory with a source file, and one with a file that is no text. -/
def besideTree : FileTree :=
  .directory [("a", .directory [("lib.rs", .file (.text "#[flow_store] struct A;"))]),
    ("b", .directory [("lib.rs", .file (.binary [0xFF]))])]

theorem besideTree_wellFormed : besideTree.WellFormed := by
  have hname : IsName "lib.rs" := by decide
  have hlib : ∀ c, (FileTree.directory [("lib.rs", .file c)]).WellFormed := fun c =>
    .directory (List.nodup_singleton "lib.rs") (List.forall_mem_singleton.mpr fun _ => hname)
      (List.forall_mem_singleton.mpr (.file c))
  exact .directory (by decide)
    (List.forall_mem_cons.mpr ⟨fun _ => by decide, List.forall_mem_singleton.mpr fun _ => by decide⟩)
    (List.forall_mem_cons.mpr ⟨hlib _, List.forall_mem_singleton.mpr (hlib _)⟩)

/-- Names stand for the position that they lead to. -/
theorem beside_stands {l : Location} {names : List String}
    (hcomponents : l.components = names.map .name) (hnames : ∀ n ∈ names, IsName n) :
    besideTree.Stands l names := by
  refine ⟨[], names, ⟨⟨[], hcomponents, rfl⟩, rfl, fun n hn => ?_⟩, rfl⟩
  rw [hcomponents] at hn
  obtain ⟨m, hm, heq⟩ := List.mem_map.mp hn
  exact Component.name.inj heq ▸ hnames m hm

theorem beside_apart : beside.Apart ⟨"gen"⟩ besideTree ["gen"] where
  form := besideTree_wellFormed
  output := beside_stands rfl (by decide)
  sources l hl := by
    have hbelow : ∀ {n m : String}, n ≠ m → ¬ Below [n] [m] := by
      rintro n m hne ⟨names, -, heq⟩
      exact hne (List.cons.inj heq).1.symm
    obtain rfl | rfl | rfl : l = ⟨"a"⟩ ∨ l = ⟨"b"⟩ ∨ l = ⟨"c/../a"⟩ := by
      simpa [beside, overSources, sourceDirectories] using hl
    · exact .stands ["a"] (beside_stands rfl (by decide)) (hbelow (by decide)) (hbelow (by decide))
    · exact .stands ["b"] (beside_stands rfl (by decide)) (hbelow (by decide)) (hbelow (by decide))
    · refine .nowhere ⟨[], "c", [.up, .name "a"], [], by decide, rfl, rfl, Or.inr (Or.inr ⟨rfl, ?_⟩)⟩
      rintro (hnear | hnear)
      · exact hbelow (by decide) hnear
      · exact hbelow (by decide) hnear

theorem beside_placed : beside.Placed besideTree := by
  have hroots : (rootsOf (beside.discoveries besideTree)).all (fun r => decide r.Placed) = true := by
    decide +kernel
  exact fun r hr => of_decide_eq_true (List.all_eq_true.mp hroots r hr)

end Generator

end ObservableStore
