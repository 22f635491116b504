import ObservableStore.Proofs.Batch.Complete

/-!
# `Proofs.Batch.Visits` — a batch file by file

A batch comes to one file after another, each time in the state that the files before it have left
(`visits`). A visit adds to the report (`Visit.failures`, `Visit.errors`), and what was added is in the
report of the whole batch, behind what was there before (`recorded_of_visit`). The units that a visit
hands to the sink are those of the declarations of the file that have a description (`handed_eq`),
whether the sink takes them or not.
-/

namespace ObservableStore

open DirectorySink (destination)

/-! ## What is handed to a destination -/

section

variable {σ : Type}

/-- A destination that keeps a list of all it is handed. -/
def logged (sink : Destination σ) : Destination (σ × List GeneratedUnit) := fun (s, handed) u =>
  ((sink s u).1, (sink s u).2, handed ++ [u])

theorem deliver_logged (sink : Destination σ) (o : EmitOptions) (s : σ) (handed : List GeneratedUnit)
    (r : Root) : deliver (logged sink) o (s, handed) r =
      ((deliver sink o s r).1, (deliver sink o s r).2, handed ++ (r.unit? o).toList) := by
  cases hd : r.describe with
  | error f =>
      have hnone : r.unit? o = none := by
        rw [Root.unit?, hd]
        rfl
      rw [deliver_undescribed hd, deliver_undescribed hd, hnone, Option.toList_none, List.append_nil]
  | ok d =>
      rw [deliver_described hd, deliver_described hd, Root.unit?_of_ok hd]
      rfl

/-- The list changes nothing, and in the end it holds the units of all declarations that have one. -/
theorem deliverAll_logged (sink : Destination σ) (o : EmitOptions) (report : Report) (s : σ)
    (handed : List GeneratedUnit) (roots : List Root) :
    deliverAll (logged sink) o (report, s, handed) roots =
      ((deliverAll sink o (report, s) roots).1, (deliverAll sink o (report, s) roots).2,
        handed ++ roots.filterMap (Root.unit? o)) := by
  induction roots generalizing report s handed with
  | nil => rw [List.filterMap_nil, List.append_nil]; rfl
  | cons r rest ih =>
      rw [deliverAll, deliverAll, deliver_logged]
      refine (ih _ _ _).trans ?_
      cases hu : r.unit? o with
      | none => rw [List.filterMap_cons_none hu, Option.toList_none, List.append_nil]
      | some u =>
          rw [List.filterMap_cons_some hu, Option.toList_some, List.append_assoc, List.singleton_append]

end

/-! ## Failures of declarations -/

/-- Whether a declaration failed before there was a unit to write. -/
def Failure.isUndescribed (f : Failure) : Bool :=
  match f.cause with
  | .outputWrite .. => false
  | _ => true

section

variable {r : Root}

theorem Root.describeField_error {f : Source.Field} {cause : FailureCause}
    (h : r.describeField f = .error cause) : ∀ unit e, cause ≠ .outputWrite unit e := by
  rintro unit e rfl
  unfold describeField at h
  split at h
  · cases h
  · split at h <;> cases h

theorem Root.describeFields_error {fs : List Source.Field} {cause : FailureCause}
    (h : r.describeFields fs = .error cause) : ∀ unit e, cause ≠ .outputWrite unit e := by
  induction fs with
  | nil => cases h
  | cons f rest ih =>
      rw [describeFields] at h
      rcases bind_eq_error.mp h with hfirst | ⟨d, -, hrest⟩
      · exact describeField_error hfirst
      · rcases bind_eq_error.mp hrest with hothers | ⟨ds, -, hnone⟩
        · exact ih hothers
        · cases hnone

theorem Root.describeBody_error {cause : FailureCause} (h : r.describeBody = .error cause) :
    ∀ unit e, cause ≠ .outputWrite unit e := by
  unfold describeBody at h
  split at h
  · rintro unit e rfl
    cases h
  split at h
  · rintro unit e rfl
    cases h
  · rcases bind_eq_error.mp h with hfields | ⟨ds, -, hcollision⟩
    · exact describeFields_error hfields
    · rintro unit e rfl
      split at hcollision <;> cases hcollision

/-- A declaration without a description fails before there is a unit. -/
theorem Root.isUndescribed_of_describe {f : Failure} (h : r.describe = .error f) :
    f.isUndescribed = true := by
  unfold describe at h
  split at h
  · cases h
  · next cause hbody =>
      obtain rfl := Except.error.inj h
      cases cause with
      | outputWrite unit e => exact absurd rfl (describeBody_error hbody unit e)
      | _ => rfl

/-- Among the outcomes of declarations there is a failure without a unit if one of them has no
    description. -/
theorem undescribed_of_settled {roots : List Root} {outcomes : List (Except Failure UnitKey)}
    (h : List.Forall₂ Root.Settled roots outcomes) :
    (∃ f ∈ failuresOf outcomes, f.isUndescribed = true) ↔ ∃ r ∈ roots, r.describe.toOption = none := by
  induction h with
  | nil => simp [failuresOf]
  | @cons r x roots outcomes hfirst _ ih =>
      rw [List.exists_mem_cons_iff, ← ih]
      cases hfirst with
      | generated hd =>
          have hsome : r.describe.toOption ≠ none := by simp [hd, Except.toOption]
          exact (or_iff_right hsome).symm
      | @undescribed f hd =>
          have hnone : r.describe.toOption = none := by rw [hd]; rfl
          have hmem : f ∈ failuresOf (Except.error f :: outcomes) := List.mem_cons_self
          exact iff_of_true ⟨f, hmem, Root.isUndescribed_of_describe hd⟩ (Or.inl hnone)
      | refused hd e =>
          have hsome : r.describe.toOption ≠ none := by simp [hd, Except.toOption]
          rw [or_iff_right hsome]
          constructor
          · rintro ⟨f, hf, hu⟩
            rcases List.mem_cons.mp hf with rfl | hf
            · cases hu
            · exact ⟨f, hf, hu⟩
          · rintro ⟨f, hf, hu⟩
            exact ⟨f, List.mem_cons_of_mem _ hf, hu⟩

end

/-! ## Reports that grow -/

/-- A report holds what another one holds of failures and errors, and more behind it. -/
structure Report.Extends (before after : Report) : Prop where
  failures : before.failures <+: after.failures
  sourceErrors : before.sourceErrors <+: after.sourceErrors

namespace Report

theorem Extends.refl (r : Report) : r.Extends r :=
  ⟨List.prefix_refl _, List.prefix_refl _⟩

theorem Extends.trans {r r' r'' : Report} (h : r.Extends r') (h' : r'.Extends r'') : r.Extends r'' :=
  ⟨h.failures.trans h'.failures, h.sourceErrors.trans h'.sourceErrors⟩

theorem extends_addSourceError (r : Report) (e : SourceError) : r.Extends (r.addSourceError e) :=
  ⟨List.prefix_refl _, List.prefix_append _ _⟩

end Report

namespace Generator

variable {g : Generator} {root directory : Location} {t : FileTree} {state : State}

theorem extends_runFile (g : Generator) (directory : Location) (state : State) (file : Location) :
    state.1.Extends (g.runFile directory state file).1 := by
  rw [runFile]
  cases g.rootsOfFile state.2.2 directory file with
  | error e => exact state.1.extends_addSourceError e
  | ok roots =>
      obtain ⟨outcomes, -, -, hfailures, hsources⟩ :=
        deliverAll_outcomes destination g.options state.1 state.2 roots
      exact ⟨⟨failuresOf outcomes, hfailures.symm⟩, ⟨[], by rw [List.append_nil]; exact hsources.symm⟩⟩

theorem extends_runFiles (g : Generator) (directory : Location) (state : State) (files : List Location) :
    state.1.Extends (files.foldl (g.runFile directory) state).1 := by
  induction files generalizing state with
  | nil => exact .refl _
  | cons file rest ih => exact (extends_runFile g directory state file).trans (ih _)

theorem extends_runDirectory (g : Generator) (state : State) (directory : Location) :
    state.1.Extends (g.runDirectory state directory).1 := by
  rw [runDirectory]
  split
  · exact state.1.extends_addSourceError _
  · exact extends_runFiles g directory state _

theorem extends_runDirectories (g : Generator) (state : State) (directories : List Location) :
    state.1.Extends (directories.foldl g.runDirectory state).1 := by
  induction directories generalizing state with
  | nil => exact .refl _
  | cons directory rest ih => exact (extends_runDirectory g state directory).trans (ih _)

/-! ## Visits -/

/-- A batch comes to a file in a source directory. -/
structure Visit where
  directory : Location
  file : Location
  /-- The state in which the batch comes to the file. -/
  state : State

/-- The visits of some files of a directory, one after another. -/
def visitsOfFiles (g : Generator) (directory : Location) : State → List Location → List Visit
  | _, [] => []
  | state, file :: rest =>
    ⟨directory, file, state⟩ :: visitsOfFiles g directory (g.runFile directory state file) rest

/-- The visits of the files of a directory. -/
def visitsOfDirectory (g : Generator) (state : State) (directory : Location) : List Visit :=
  match state.2.2.filesWithExtension directory "rs" with
  | none => []
  | some files => g.visitsOfFiles directory state files

/-- The visits of the files of some directories, one after another. -/
def visitsFrom (g : Generator) : State → List Location → List Visit
  | _, [] => []
  | state, directory :: rest =>
    g.visitsOfDirectory state directory ++ visitsFrom g (g.runDirectory state directory) rest

/-- The visits of a batch over all source directories. -/
def visits (g : Generator) (root : Location) (t : FileTree) : List Visit :=
  g.visitsFrom (Report.empty, DirectorySink.new root, t) g.sourceDirectories

namespace Visit

/-- The declarations of the visited file. -/
def roots (g : Generator) (v : Visit) : Except SourceError (List Root) :=
  g.rootsOfFile v.state.2.2 v.directory v.file

/-- The state that a visit leaves. -/
def after (g : Generator) (v : Visit) : State := g.runFile v.directory v.state v.file

/-- The failures that are recorded for the visited file. -/
def failures (g : Generator) (v : Visit) : List Failure :=
  (v.after g).1.failures.drop v.state.1.failures.length

/-- The errors that are recorded for the visited file. -/
def errors (g : Generator) (v : Visit) : List SourceError :=
  (v.after g).1.sourceErrors.drop v.state.1.sourceErrors.length

/-- The descriptions of the declarations of the visited file that have one. -/
def descriptions (g : Generator) (v : Visit) : List StoreDescription :=
  match v.roots g with
  | .ok roots => roots.filterMap fun r => r.describe.toOption
  | .error _ => []

/-- The units that are handed to the sink for the visited file. -/
def handed (g : Generator) (v : Visit) : List GeneratedUnit :=
  match v.roots g with
  | .ok roots => (deliverAll (logged destination) g.options (v.state.1, v.state.2, []) roots).2.2
  | .error _ => []

variable {v : Visit}

/-- The sink is handed the units of the descriptions, in order. -/
theorem handed_eq (g : Generator) (v : Visit) :
    v.handed g = (v.descriptions g).map fun d => d.emit g.options := by
  unfold handed descriptions
  cases v.roots g with
  | error e => rfl
  | ok roots =>
      simp only [deliverAll_logged, List.nil_append, List.map_filterMap]
      rfl

theorem failures_after (g : Generator) (v : Visit) :
    (v.after g).1.failures = v.state.1.failures ++ v.failures g :=
  List.prefix_iff_eq_append.mp (extends_runFile g v.directory v.state v.file).failures |>.symm

theorem errors_after (g : Generator) (v : Visit) :
    (v.after g).1.sourceErrors = v.state.1.sourceErrors ++ v.errors g :=
  List.prefix_iff_eq_append.mp (extends_runFile g v.directory v.state v.file).sourceErrors |>.symm

/-- A file that cannot be read or parsed gives its error and no failure. -/
theorem recorded_of_error {e : SourceError} (h : v.roots g = .error e) :
    v.failures g = [] ∧ v.errors g = [e] := by
  have hafter : v.after g = (v.state.1.addSourceError e, v.state.2) := by
    rw [after, runFile, show g.rootsOfFile v.state.2.2 v.directory v.file = .error e from h]
  unfold failures errors
  rw [hafter]
  exact ⟨List.drop_length, List.drop_left⟩

/-- Any other file gives no error, and a failure without a unit if one of its declarations has no
    description. -/
theorem recorded_of_ok {roots : List Root} (h : v.roots g = .ok roots) :
    v.errors g = [] ∧
      ((∃ f ∈ v.failures g, f.isUndescribed = true) ↔ ∃ r ∈ roots, r.describe.toOption = none) := by
  obtain ⟨outcomes, hsettled, -, hfailures, hsources⟩ :=
    deliverAll_outcomes destination g.options v.state.1 v.state.2 roots
  have hafter : v.after g = deliverAll destination g.options v.state roots := by
    rw [after, runFile, show g.rootsOfFile v.state.2.2 v.directory v.file = .ok roots from h]
  have hnew : v.failures g = failuresOf outcomes := by
    rw [failures, hafter, hfailures, List.drop_left]
  refine ⟨?_, ?_⟩
  · rw [errors, hafter, hsources, List.drop_length]
  · rw [hnew]
    exact undescribed_of_settled hsettled

end Visit

theorem extends_of_mem_files {v : Visit} {files : List Location}
    (h : v ∈ g.visitsOfFiles directory state files) :
    (v.after g).1.Extends (files.foldl (g.runFile directory) state).1 := by
  induction files generalizing state with
  | nil => cases h
  | cons file rest ih =>
      rcases List.mem_cons.mp h with rfl | h
      · exact extends_runFiles g directory _ rest
      · exact ih h

theorem extends_of_mem_directory {v : Visit} (h : v ∈ g.visitsOfDirectory state directory) :
    (v.after g).1.Extends (g.runDirectory state directory).1 := by
  cases hfiles : state.2.2.filesWithExtension directory "rs" with
  | none =>
      rw [visitsOfDirectory, hfiles] at h
      cases h
  | some files =>
      rw [visitsOfDirectory, hfiles] at h
      rw [runDirectory, hfiles]
      exact extends_of_mem_files h

theorem extends_of_mem_directories {v : Visit} {directories : List Location}
    (h : v ∈ g.visitsFrom state directories) :
    (v.after g).1.Extends (directories.foldl g.runDirectory state).1 := by
  induction directories generalizing state with
  | nil => cases h
  | cons directory rest ih =>
      rcases List.mem_append.mp h with h | h
      · exact (extends_of_mem_directory h).trans (extends_runDirectories g _ rest)
      · exact ih h

/-- **What a visit records is in the report of the batch**, behind what was recorded before. -/
theorem recorded_of_visit {v : Visit} (h : v ∈ g.visits root t) :
    v.state.1.failures ++ v.failures g <+: (g.run root t).1.failures ∧
      v.state.1.sourceErrors ++ v.errors g <+: (g.run root t).1.sourceErrors := by
  have hextends := extends_of_mem_directories h
  rw [← v.failures_after g, ← v.errors_after g]
  exact ⟨hextends.failures, hextends.sourceErrors⟩

end Generator

end ObservableStore
