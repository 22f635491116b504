import Mathlib.Data.List.Forall2
import ObservableStore.Proofs.Batch.Discoveries
import ObservableStore.Proofs.Batch.FirstWins
import ObservableStore.Proofs.FileTree.Remove

/-!
# `Proofs.Batch.Complete` — nothing that a batch discovers is lost

Every declaration that is delivered has one outcome in the report, its key or a failure that names
it, and the outcomes stand in the order of the declarations (`deliverAll_outcomes`). The errors of
sources are those that were discovered. A file that gives an error wherever it is found (`Broken`)
gives nothing else: without it the batch delivers the same declarations (`rootsOf_without`) to a tree
that looks alike near the output root, so that outcomes and files are the same (`deliverAll_alike`).
-/

namespace ObservableStore

open FileTree DirectorySink

open Location (IsName)

/-! ## Outcomes -/

/-- What a report says of a declaration: the key of its unit, if it has a description, or a failure,
    which names it. -/
inductive Root.Settled (r : Root) : Except Failure UnitKey → Prop
  | generated {d : StoreDescription} (h : r.describe = .ok d) : Settled r (.ok r.key)
  | undescribed {f : Failure} (h : r.describe = .error f) : Settled r (.error f)
  | refused {d : StoreDescription} (h : r.describe = .ok d) (e : SinkError) :
      Settled r (.error ⟨r.home, r.name, .outputWrite r.key.name e⟩)

/-- The outcomes that are keys. -/
def keysOf (outcomes : List (Except Failure UnitKey)) : List UnitKey :=
  outcomes.filterMap fun x => x.toOption

/-- The outcomes that are failures. -/
def failuresOf (outcomes : List (Except Failure UnitKey)) : List Failure :=
  outcomes.filterMap fun
    | .ok _ => none
    | .error f => some f

section

variable {σ : Type} {sink : Destination σ} {o : EmitOptions} {s : σ} {r : Root}

/-- A delivery settles its declaration. -/
theorem deliver_settled (sink : Destination σ) (o : EmitOptions) (s : σ) (r : Root) :
    r.Settled ((deliver sink o s r).1.map GeneratedUnit.key) := by
  cases hd : r.describe with
  | error f =>
      rw [deliver_undescribed hd]
      exact .undescribed hd
  | ok d =>
      obtain ⟨hkey, -⟩ := Root.emit_of_ok (o := o) hd
      obtain ⟨-, -, hhome, hroot⟩ := Root.describe_ok hd
      have hname : (d.emit o).name = r.key.name := congrArg UnitKey.name hkey
      rw [deliver_described hd]
      cases (sink s (d.emit o)).1 with
      | none =>
          show r.Settled (.ok (d.emit o).key)
          rw [hkey]
          exact .generated hd
      | some e =>
          show r.Settled (.error ⟨d.home, d.root, .outputWrite (d.emit o).name e⟩)
          rw [hhome, hroot, hname]
          exact .refused hd e

/-- **Every declaration has one outcome**, in order. -/
theorem deliverAll_outcomes (sink : Destination σ) (o : EmitOptions) (report : Report) (s : σ)
    (roots : List Root) :
    ∃ outcomes, List.Forall₂ Root.Settled roots outcomes ∧
      (deliverAll sink o (report, s) roots).1.generated = report.generated ++ keysOf outcomes ∧
      (deliverAll sink o (report, s) roots).1.failures = report.failures ++ failuresOf outcomes ∧
      (deliverAll sink o (report, s) roots).1.sourceErrors = report.sourceErrors := by
  induction roots generalizing report s with
  | nil => exact ⟨[], .nil, (List.append_nil _).symm, (List.append_nil _).symm, rfl⟩
  | cons r rest ih =>
      have hfirst := deliver_settled sink o s r
      obtain ⟨outcomes, hsettled, hgenerated, hfailures, hsources⟩ :=
        ih (report.add (deliver sink o s r).1) (deliver sink o s r).2
      refine ⟨_, .cons hfirst hsettled, hgenerated.trans ?_, hfailures.trans ?_,
        hsources.trans ?_⟩
      · cases (deliver sink o s r).1 with
        | ok u => simp [Report.add, keysOf, Except.map, Except.toOption]
        | error f => simp [Report.add, keysOf, Except.map, Except.toOption]
      · cases (deliver sink o s r).1 with
        | ok u => simp [Report.add, failuresOf, Except.map]
        | error f => simp [Report.add, failuresOf, Except.map]
      · cases (deliver sink o s r).1 <;> rfl

end

/-! ## Deliveries to trees that look alike -/

section

variable {S : List String → Prop} {o : EmitOptions} {report : Report} {s : DirectorySink}
variable {t t' : FileTree} {r : Root} {roots : List Root} {base names : List String}

theorem deliver_alike (halike : Alike S t t') (h : Anchored t s.root.components base names)
    (h' : Anchored t' s.root.components base names) (hr : r.Placed)
    (hS : ∀ p, Near (base ++ names) p → S p) :
    (deliver destination o (s, t') r).1 = (deliver destination o (s, t) r).1 ∧
      (deliver destination o (s, t') r).2.1 = (deliver destination o (s, t) r).2.1 ∧
      Alike S (deliver destination o (s, t) r).2.2 (deliver destination o (s, t') r).2.2 := by
  cases hd : r.describe with
  | error f =>
      rw [deliver_undescribed hd, deliver_undescribed hd]
      exact ⟨rfl, rfl, halike⟩
  | ok d =>
      rw [deliver_written hd, deliver_written hd]
      obtain ⟨hfault, hsink, hlook⟩ :=
        write_alike halike h h' (ordinary_emit (o := o) hd hr) hS
      exact ⟨congrArg (outcomeOf d (d.emit o)) hfault, hsink, hlook⟩

/-- **Deliveries do the same to trees that look alike** near the output root. -/
theorem deliverAll_alike (report : Report) (halike : Alike S t t')
    (h : Anchored t s.root.components base names)
    (h' : Anchored t' s.root.components base names) (hroots : ∀ r ∈ roots, r.Placed)
    (hS : ∀ p, Near (base ++ names) p → S p) :
    (deliverThere o (report, s, t') roots).1 = (deliverThere o (report, s, t) roots).1 ∧
      Alike S (deliverThere o (report, s, t) roots).2.2
        (deliverThere o (report, s, t') roots).2.2 := by
  induction roots generalizing report s t t' with
  | nil => exact ⟨rfl, halike⟩
  | cons r rest ih =>
      have hr := hroots r List.mem_cons_self
      obtain ⟨houtcome, hsink, hlook⟩ := deliver_alike (o := o) halike h h' hr hS
      have hroot := deliver_root o s t r
      have hgrown := deliver_grown (o := o) h hr
      have hgrown' := deliver_grown (o := o) h' hr
      cases hfirst : deliver destination o (s, t) r with
      | mk outcome next =>
          cases hfirst' : deliver destination o (s, t') r with
          | mk outcome' next' =>
              obtain ⟨s₁, t₁⟩ := next
              obtain ⟨s₁', t₁'⟩ := next'
              rw [hfirst] at hroot hgrown
              rw [hfirst'] at hgrown'
              rw [hfirst, hfirst'] at houtcome hsink hlook
              simp only at houtcome hsink hlook hroot hgrown hgrown'
              subst houtcome hsink
              simp only [deliverThere, deliverAll, hfirst, hfirst']
              exact ih (report.add outcome') hlook (hroot.symm ▸ h.grown hgrown)
                (hroot.symm ▸ h'.grown hgrown')
                fun r' hr' => hroots r' (List.mem_cons_of_mem r hr')

end

/-! ## Files that give nothing -/

namespace Generator

variable {g : Generator} {root : Location} {t : FileTree} {place q : List String}
variable {directory : Location} {gone : List (List String)}

/-- Members that are left out give nothing. -/
theorem flatMap_filter {α β : Type} {l : List α} {p : α → Bool} {f f' : α → List β}
    (hkept : ∀ x ∈ l, p x = true → f' x = f x) (hgone : ∀ x ∈ l, p x = false → f x = []) :
    (l.filter p).flatMap f' = l.flatMap f := by
  induction l with
  | nil => rfl
  | cons x rest ih =>
      have hrest := ih (fun y hy => hkept y (List.mem_cons_of_mem x hy))
        fun y hy => hgone y (List.mem_cons_of_mem x hy)
      rw [List.filter_cons, List.flatMap_cons]
      cases hx : p x with
      | true =>
          simp only [if_true, List.flatMap_cons]
          rw [hkept x List.mem_cons_self hx, hrest]
      | false =>
          simp only [Bool.false_eq_true, if_false]
          rw [hgone x List.mem_cons_self hx, hrest, List.nil_append]

theorem rootsOf_flatMap {α : Type} (l : List α) (f : α → List (Except SourceError Root)) :
    rootsOf (l.flatMap f) = l.flatMap fun x => rootsOf (f x) :=
  List.filterMap_flatMap

/-- A file below a source directory that gives an error wherever it is found. -/
structure Broken (g : Generator) (t : FileTree) (q : List String) : Prop where
  found : ∃ directory ∈ g.sourceDirectories, ∃ files,
    t.filesWithExtension directory "rs" = some files ∧ ∃ file ∈ files, t.Stands file q
  error : ∀ directory ∈ g.sourceDirectories, ∀ files,
    t.filesWithExtension directory "rs" = some files → ∀ file ∈ files, t.Stands file q →
      ∃ e, g.rootsOfFile t directory file = .error e

/-- A file that is found below a source directory, and its place. -/
theorem mem_files_found {base names files} {file : Location} (hform : t.WellFormed)
    (hanchored : Anchored t directory.components base names)
    (hfiles : t.filesWithExtension directory "rs" = some files) (hfile : file ∈ files) :
    ∃ more, more ∈ t.found (base ++ names) "rs" ∧ file = locate directory more ∧
      (∀ n ∈ more, IsName n) := by
  rw [filesWithExtension_eq hanchored] at hfiles
  split at hfiles
  · obtain rfl := Option.some.inj hfiles
    obtain ⟨more, hmore, rfl⟩ := List.mem_map.mp hfile
    exact ⟨more, hmore, rfl, isName_of_mem_found hform hmore⟩
  · cases hfiles

/-- Where a broken file lies. -/
theorem Broken.apart (h : g.Apart root t place) (hq : g.Broken t q) :
    ¬ Near place q ∧ isOutward q = false ∧ ∃ c, t.look q = .file c := by
  obtain ⟨directory, hd, files, hfiles, file, hfile, hstands⟩ := hq.found
  cases h.sources directory hd with
  | nowhere hnowhere =>
      rw [hnowhere.filesWithExtension] at hfiles
      cases hfiles
  | stands source hsourceStands hsource hplace =>
      obtain ⟨base, names, hanchored, rfl⟩ := hsourceStands
      obtain ⟨more, hmore, rfl, hnames⟩ := mem_files_found h.form hanchored hfiles hfile
      obtain ⟨-, hc, hinside, hext⟩ := (mem_found h.form).mp hmore
      have heq : q = base ++ (names ++ more) :=
        hstands.unique ⟨base, names ++ more, anchored_locate hanchored hnames, rfl⟩
      rw [← List.append_assoc] at heq
      obtain rfl := heq
      refine ⟨not_near hsource hplace ⟨more, hinside, rfl⟩, ?_, hc⟩
      cases more with
      | nil => cases hext
      | cons n more => exact isOutward_inside (hinside n List.mem_cons_self) _ _

section

variable (h : g.Apart root t place) (hgone : ∀ q ∈ gone, g.Broken t q)
include h hgone

/-- Without broken files everything else is seen as before. -/
theorem look_without_broken (p : List String) :
    (t.without gone).look p = if p ∈ gone then .nothing else t.look p := by
  refine look_without (fun q hq => ?_) p
  obtain ⟨-, hout, c, hc⟩ := (hgone q hq).apart h
  exact ⟨hout, ne_directory_of_file hc⟩

theorem directory_without {p : List String} :
    (t.without gone).look p = .directory ↔ t.look p = .directory := by
  rw [look_without_broken h hgone]
  split
  · next hp =>
      obtain ⟨-, -, c, hc⟩ := (hgone p hp).apart h
      simp [hc]
  · rfl

theorem nowhere_without {l : Location} (hl : t.LeadsNowhere (Near place) l) :
    (t.without gone).LeadsNowhere (Near place) l := by
  have hlook := look_without_broken h hgone
  refine hl.mono (fun _ hq => (directory_without h hgone).mpr hq) (fun q c hc => ?_)
    fun q hq hnever => ?_
  · rw [hlook]
    split
    · next hq => exact Or.inr ⟨rfl, ((hgone q hq).apart h).1⟩
    · exact Or.inl ⟨c, hc⟩
  · rw [hlook, hq]
    split <;> rfl

theorem Apart.without : g.Apart root (t.without gone) place where
  form := h.form.without
  output := h.output.of_directories fun _ hq => (directory_without h hgone).mpr hq
  sources l hl := by
    cases h.sources l hl with
    | stands source hstands hsource hplace =>
        have hkept := hstands.of_directories fun _ hq => (directory_without h hgone).mpr hq
        exact .stands source hkept hsource hplace
    | nowhere hnowhere => exact .nowhere (nowhere_without h hgone hnowhere)

/-- **A broken file gives no declaration**, and without it the other files give what they gave. -/
theorem rootsOf_directory_without (hd : directory ∈ g.sourceDirectories) :
    rootsOf (g.discoverDirectory (t.without gone) directory) =
      rootsOf (g.discoverDirectory t directory) := by
  cases h.sources directory hd with
  | nowhere hnowhere =>
      have hnowhere' := nowhere_without h hgone hnowhere
      rw [discoverDirectory, discoverDirectory, hnowhere.filesWithExtension,
        hnowhere'.filesWithExtension]
  | stands source hsourceStands hsource hplace =>
      obtain ⟨base, names, hanchored, rfl⟩ := hsourceStands
      have hkeeps := fun q (hq : t.look q = .directory) => (directory_without h hgone).mpr hq
      have hanchored' := hanchored.of_directories hkeeps
      have hlook := look_without_broken h hgone
      rw [discoverDirectory, discoverDirectory, filesWithExtension_eq hanchored,
        filesWithExtension_eq hanchored']
      by_cases hthere : refusal? directory = none ∧ t.look (base ++ names) = .directory ∧
          names.any isLongName = false
      · have hthere' := And.intro hthere.1 (And.intro (hkeeps _ hthere.2.1) hthere.2.2)
        have hsame : (t.without gone).look (base ++ names) = t.look (base ++ names) :=
          hthere'.2.1.trans hthere.2.1.symm
        have hfiles : t.filesWithExtension directory "rs" =
            some ((t.found (base ++ names) "rs").map (locate directory)) := by
          rw [filesWithExtension_eq hanchored, if_pos hthere]
        rw [if_pos hthere, if_pos hthere',
          found_without h.form h.form.without hsame fun q _ => hlook q]
        simp only [rootsOf_flatMap, List.flatMap_map]
        refine flatMap_filter (fun more hmore hkept => ?_) fun more hmore hremoved => ?_
        · -- a file that stays is read as before
          obtain ⟨-, ⟨c, hc⟩, -, -⟩ := (mem_found h.form).mp hmore
          have hnames := isName_of_mem_found h.form hmore
          have hstays := hlook (base ++ names ++ more)
          rw [if_neg (of_decide_eq_true hkept)] at hstays
          rw [List.append_assoc] at hc hstays
          have hread := readText_congr (anchored_locate hanchored hnames)
            (anchored_locate hanchored' hnames) hc hstays
          rw [discoverFile, discoverFile, rootsOfFile, rootsOfFile, hread]
        · -- a file that was removed gave an error
          have hnames := isName_of_mem_found h.form hmore
          have hbroken : g.Broken t (base ++ names ++ more) := by
            refine hgone _ ?_
            by_contra hnot
            rw [decide_eq_true hnot] at hremoved
            cases hremoved
          obtain ⟨e, he⟩ := hbroken.error directory hd _ hfiles _ (List.mem_map_of_mem hmore)
            ⟨base, names ++ more, anchored_locate hanchored hnames, List.append_assoc _ _ _⟩
          rw [discoverFile, he]
          rfl
      · have hnot : ¬ (refusal? directory = none ∧ (t.without gone).look (base ++ names) = .directory ∧
            names.any isLongName = false) :=
          fun hthere' => hthere ⟨hthere'.1, (directory_without h hgone).mp hthere'.2.1, hthere'.2.2⟩
        rw [if_neg hthere, if_neg hnot]

theorem rootsOf_without :
    rootsOf (g.discoveries (t.without gone)) = rootsOf (g.discoveries t) := by
  rw [discoveries, discoveries, rootsOf_flatMap, rootsOf_flatMap]
  exact List.flatMap_congr fun directory hd => rootsOf_directory_without h hgone hd

/-- **Without broken files a batch does the same**, but for the errors of these files. -/
theorem finalState_without (hplaced : g.Placed t) :
    let whole := g.finalState root t
    let rest := g.finalState root (t.without gone)
    rest.1.generated = whole.1.generated ∧ rest.1.failures = whole.1.failures ∧
      Alike (· ∉ gone) whole.2.2 rest.2.2 := by
  have hplaced' : g.Placed (t.without gone) := by
    rw [Placed, rootsOf_without h hgone]
    exact hplaced
  have hlook := look_without_broken h hgone
  have halike : Alike (· ∉ gone) t (t.without gone) := fun q hq => by rw [hlook, if_neg hq]
  obtain ⟨base, names, hanchored, rfl⟩ := h.output
  have hanchored' := hanchored.of_directories fun q hq => (directory_without h hgone).mpr hq
  have hnear : ∀ q, Near (base ++ names) q → q ∉ gone := fun q hq hmem =>
    ((hgone q hmem).apart h).1 hq
  obtain ⟨hreport, htree⟩ := deliverAll_alike (o := g.options) Report.empty halike
    (s := new root) hanchored hanchored' hplaced hnear
  intro whole rest
  have hwhole : whole = g.take (Report.empty, new root, t) (g.discoveries t) :=
    finalState_eq h hplaced
  have hrest : rest = g.take (Report.empty, new root, t.without gone)
      (g.discoveries (t.without gone)) := finalState_eq (h.without hgone) hplaced'
  rw [hwhole, hrest, take, take, rootsOf_without h hgone]
  have hgenerated := congrArg Report.generated hreport
  have hfailures := congrArg Report.failures hreport
  exact ⟨hgenerated, hfailures, htree⟩

end

/-! ## Missing directories -/

/-- An error of a file is not that of a missing directory. -/
theorem rootsOfFile_error {file l : Location} :
    g.rootsOfFile t directory file ≠ .error (.missingDirectory l) := by
  rw [rootsOfFile]
  cases t.readText file with
  | error fault =>
      intro heq
      cases heq
  | ok text =>
      simp only [SourceFile.roots]
      split
      · intro heq
        cases heq
      · intro heq
        cases heq

/-- Files give no error of a missing directory. -/
theorem missing_of_mem_runFiles {files : List Location} {state : State} {l : Location}
    (h : .missingDirectory l ∈ (files.foldl (g.runFile directory) state).1.sourceErrors) :
    .missingDirectory l ∈ state.1.sourceErrors := by
  induction files generalizing state with
  | nil => exact h
  | cons file rest ih =>
      have hfirst := ih h
      rw [runFile] at hfirst
      cases hroots : g.rootsOfFile state.2.2 directory file with
      | ok roots =>
          obtain ⟨report, s⟩ := state
          obtain ⟨-, -, -, -, hsources⟩ :=
            deliverAll_outcomes destination g.options report s roots
          rw [hroots] at hfirst
          exact hsources ▸ hfirst
      | error e =>
          rw [hroots] at hfirst
          rcases List.mem_append.mp hfirst with hbefore | hnew
          · exact hbefore
          · rw [← List.mem_singleton.mp hnew] at hroots
            exact absurd hroots rootsOfFile_error

/-- A directory that is there gives no error of a missing one. -/
theorem missing_of_mem_runDirectory {files : List Location} {state : State} {l : Location}
    (hfiles : state.2.2.filesWithExtension directory "rs" = some files)
    (h : .missingDirectory l ∈ (g.runDirectory state directory).1.sourceErrors) :
    .missingDirectory l ∈ state.1.sourceErrors := by
  rw [runDirectory, hfiles] at h
  exact missing_of_mem_runFiles h

/-- A second directory that is there once the first one was read gives no error of a missing one. -/
theorem missing_of_second {first second : Location} {files : List Location}
    (hsources : g.sourceDirectories = [first, second])
    (hfiles : (g.runDirectory (Report.empty, new root, t) first).2.2.filesWithExtension second "rs"
      = some files)
    (h : .missingDirectory second ∈ (g.run root t).1.sourceErrors) :
    .missingDirectory second ∈
      (g.runDirectory (Report.empty, new root, t) first).1.sourceErrors := by
  rw [run_eq, finalState, hsources, List.foldl_cons, List.foldl_cons, List.foldl_nil] at h
  exact missing_of_mem_runDirectory hfiles h

/-! ## The whole batch -/

/-- **Nothing is swallowed and failures stay local.** Where the output root and the source directories
    lie apart, a batch gives a report. Its errors of sources are those that were discovered, and of
    every declaration that was discovered it has one outcome, in order. Without any number of broken
    files the batch generates the same, fails in the same way and leaves the same files. -/
theorem generate_complete {environment : Option String}
    (hroot : g.outputRoot? environment = some root) (h : g.Apart root t place)
    (hplaced : g.Placed t) :
    ∃ report t', g.generate environment t = .ok (report, t') ∧
      report.sourceErrors = errorsOf (g.discoveries t) ∧
      (∃ outcomes, List.Forall₂ Root.Settled (rootsOf (g.discoveries t)) outcomes ∧
        report.generated = keysOf outcomes ∧ report.failures = failuresOf outcomes) ∧
      ∀ gone, (∀ q ∈ gone, g.Broken t q) →
        ∃ report' t'', g.generate environment (t.without gone) = .ok (report', t'') ∧
          report'.generated = report.generated ∧ report'.failures = report.failures ∧
          ∀ q, q ∉ gone → ∀ c, t''.find? q = some (.file c) ↔ t'.find? q = some (.file c) := by
  have hrun := generate_eq hroot
  obtain ⟨outcomes, hsettled, hgenerated, hfailures, hsources⟩ :=
    deliverAll_outcomes destination g.options Report.empty (new root, t) (rootsOf (g.discoveries t))
  refine ⟨_, _, hrun t, ?_, ⟨outcomes, hsettled, ?_, ?_⟩, fun gone hgone => ?_⟩
  · rw [finalState_eq h hplaced, take, Report.withErrors, hsources]
    rfl
  · rw [finalState_eq h hplaced]
    exact hgenerated
  · rw [finalState_eq h hplaced]
    exact hfailures
  · obtain ⟨hgenerated', hfailures', halike⟩ := finalState_without h hgone hplaced
    refine ⟨_, _, hrun (t.without gone), hgenerated', hfailures', fun q hq c => ?_⟩
    rw [← look_file, ← look_file, halike q hq]

/-- The file that is no text gives an error. -/
theorem beside_broken : beside.Broken besideTree ["b", "lib.rs"] where
  found := ⟨⟨"b"⟩, by decide, [⟨"b/lib.rs"⟩], by decide +kernel, ⟨"b/lib.rs"⟩,
    List.mem_singleton_self _, beside_stands rfl (by decide)⟩
  error directory hd files hfiles file hfile hstands := by
    obtain rfl | rfl | rfl : directory = ⟨"a"⟩ ∨ directory = ⟨"b"⟩ ∨ directory = ⟨"c/../a"⟩ := by
      simpa [beside, overSources, sourceDirectories] using hd
    · have ha : besideTree.filesWithExtension ⟨"a"⟩ "rs" = some [⟨"a/lib.rs"⟩] := by decide +kernel
      obtain rfl := Option.some.inj (ha.symm.trans hfiles)
      obtain rfl := List.mem_singleton.mp hfile
      have hplace : besideTree.Stands ⟨"a/lib.rs"⟩ ["a", "lib.rs"] :=
        beside_stands rfl (by decide)
      exact absurd (hplace.unique hstands) (by decide)
    · have hb : besideTree.filesWithExtension ⟨"b"⟩ "rs" = some [⟨"b/lib.rs"⟩] := by decide +kernel
      obtain rfl := Option.some.inj (hb.symm.trans hfiles)
      obtain rfl := List.mem_singleton.mp hfile
      exact ⟨.unreadable ⟨"b/lib.rs"⟩ .notText, rfl⟩
    · have hc : besideTree.filesWithExtension ⟨"c/../a"⟩ "rs" = none := by decide +kernel
      cases hc.symm.trans hfiles

/-- A run over a source file, a file that is no text and a missing directory, with the file that is no
    text and without it. -/
theorem generate_complete_beside :
    ∃ report t' report' t'', beside.generate none besideTree = .ok (report, t') ∧
      report.generated = [⟨Namespace.crateRoot, "AStore"⟩] ∧ report.failures = [] ∧
      report.sourceErrors =
        [.unreadable ⟨"b/lib.rs"⟩ .notText, .missingDirectory ⟨"c/../a"⟩] ∧
      beside.generate none (besideTree.without [["b", "lib.rs"]]) = .ok (report', t'') ∧
      report'.generated = report.generated ∧ report'.failures = report.failures ∧
      ∀ q, q ∉ [["b", "lib.rs"]] →
        ∀ c, t''.find? q = some (.file c) ↔ t'.find? q = some (.file c) := by
  have hroot : beside.outputRoot? none = some ⟨"gen"⟩ := rfl
  obtain ⟨report, t', hrun, -, -, hwithout⟩ :=
    generate_complete hroot beside_apart beside_placed
  obtain ⟨report', t'', hrun', hsame⟩ :=
    hwithout [["b", "lib.rs"]] (List.forall_mem_singleton.mpr beside_broken)
  obtain rfl : (beside.run ⟨"gen"⟩ besideTree).1 = report := congrArg Prod.fst (Except.ok.inj hrun)
  exact ⟨_, t', report', t'', hrun, by decide +kernel, by decide +kernel, by decide +kernel, hrun',
    hsame⟩

/-- **A directory that is missing at first is not always reported.** The unit of the directory `a`
    makes the directories that are missing on the way to the output root, `y` itself or `x`, so that
    `x/../b` is there when its turn comes. In a file named `...rs` a declaration has a namespace with a
    step up, which here leads out of the output root and makes the source directory `b`. -/
theorem missing_unreported :
    ((overSources ["a", "y"] "x/../y/../gen").apartAsWritten ⟨"x/../y/../gen"⟩ = true ∧
      detourTree.isDirectoryAt ⟨"y"⟩ = false ∧
      .missingDirectory ⟨"y"⟩ ∉
        ((overSources ["a", "y"] "x/../y/../gen").run ⟨"x/../y/../gen"⟩ detourTree).1.sourceErrors) ∧
    ((overSources ["a", "x/../b"] "x/gen").apartAsWritten ⟨"x/gen"⟩ = true ∧
      detourTree.isDirectoryAt ⟨"x/../b"⟩ = false ∧
      .missingDirectory ⟨"x/../b"⟩ ∉
        ((overSources ["a", "x/../b"] "x/gen").run ⟨"x/gen"⟩ detourTree).1.sourceErrors) ∧
    (let t := FileTree.directory
      [("src", .directory [("...rs", .file (.text "mod b \x7b #[flow_store] struct X; \x7d"))])]
    (overSources ["src", "b"] "gen").apartAsWritten ⟨"gen"⟩ = true ∧ t.isDirectoryAt ⟨"b"⟩ = false ∧
      .missingDirectory ⟨"b"⟩ ∉ ((overSources ["src", "b"] "gen").run ⟨"gen"⟩ t).1.sourceErrors) := by
  have hnone : ∀ {errors : List SourceError} {e : SourceError}, errors.length = 0 → e ∉ errors := by
    intro errors e hlength
    rw [List.eq_nil_of_length_eq_zero hlength]
    exact List.not_mem_nil
  refine ⟨⟨by decide, by decide +kernel, ?_⟩, ⟨by decide, by decide +kernel, ?_⟩, ?_⟩
  · exact hnone (by decide +kernel)
  · exact hnone (by decide +kernel)
  · refine ⟨by decide, by decide +kernel, fun hmissing => ?_⟩
    have hthere := missing_of_second rfl (by decide +kernel : _ = some [⟨"b/x_store.rs"⟩]) hmissing
    exact hnone (by decide +kernel) hthere

end Generator

end ObservableStore
