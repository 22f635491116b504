import ObservableStore.CommandLine.Run
import ObservableStore.Proofs.Batch.Visits
import ObservableStore.Proofs.Namespace

/-!
# `Proofs.CommandLine.Describe` — descriptions of a file, printed and generated from

The command `ir` reads one file as a batch does that comes to it, but it is told the namespace of the
file as a text. Where the namespace reads back from this text, both find the same declarations: what
is printed are the descriptions of the units that the batch hands to its sink, and the command fails
where the batch records a declaration without a description or a file that does not parse
(`describe_agrees`). Whether the sink takes a unit is no concern of the command.
-/

namespace ObservableStore.CommandLine

open Generator (Visit)
open Location (PlainBelow)

/-! ## The command line -/

section

variable {forms : List OptionForm} {f : OptionForm} {name : String}

/-- An argument with a long name and a value behind `=`. -/
theorem argumentItems_long (hname : '=' ∉ name.toList)
    (hfind : forms.find? (fun f => f.name == name) = some f) (hvalue : f.takesValue = true)
    (value : String) :
    argumentItems forms ("--" ++ name ++ "=" ++ value) = some ([.option f value], none) := by
  have htext : ("--" ++ name ++ "=" ++ value).toList =
      '-' :: '-' :: (name.toList ++ '=' :: value.toList) := by
    simp [String.toList_append]
  have hall : ∀ c ∈ name.toList, (decide (c ≠ '=')) = true := fun c hc =>
    decide_eq_true fun heq => hname (heq ▸ hc)
  have htake : (name.toList ++ '=' :: value.toList).takeWhile (· ≠ '=') = name.toList := by
    rw [List.takeWhile_append_of_pos hall, List.takeWhile_cons_of_neg (by decide), List.append_nil]
  have hdrop : (name.toList ++ '=' :: value.toList).dropWhile (· ≠ '=') = '=' :: value.toList := by
    rw [List.dropWhile_append_of_pos hall, List.dropWhile_cons_of_neg (by decide)]
  rw [argumentItems, htext]
  show longItems forms (name.toList ++ '=' :: value.toList) = _
  rw [longItems, htake, hdrop, String.ofList_toList, hfind]
  simp only [hvalue, if_true, String.ofList_toList]

/-- Such an argument is one item, and what follows is read on its own. -/
theorem ofArguments_long (hname : '=' ∉ name.toList)
    (hfind : forms.find? (fun f => f.name == name) = some f) (hvalue : f.takesValue = true)
    (hhelp : (f == helpForm) = false) (value : String) (rest : List String) :
    Item.ofArguments forms (("--" ++ name ++ "=" ++ value) :: rest) =
      (Item.ofArguments forms rest).map (.option f value :: ·) := by
  have hne : "--" ++ name ++ "=" ++ value ≠ "--" := by
    intro heq
    have hlength := congrArg String.length heq
    have hequals : "=".length = 1 := rfl
    simp only [String.length_append] at hlength
    omega
  rw [Item.ofArguments, if_neg hne, argumentItems_long hname hfind hvalue value]
  simp [Item.isHelp, hhelp]

end

/-- Of every file the descriptions can be asked for, whatever its name, the namespace and the marker. -/
theorem ofArguments_describe {file : Location} (hfile : file.text ≠ "") (home marker : String) :
    Invocation.ofArguments ["ir", "--namespace=" ++ home, "--marker=" ++ marker, "--", file.text] =
      some ⟨false, .describe file home marker⟩ := by
  have hnamespace : "--namespace=" = "--" ++ "namespace" ++ "=" := by decide
  have hmarker : "--marker=" = "--" ++ "marker" ++ "=" := by decide
  have hitems : Item.ofArguments describeForms
      ["--namespace=" ++ home, "--marker=" ++ marker, "--", file.text] =
      some [.option ⟨"namespace", none, true, false, true⟩ home,
        .option ⟨"marker", none, true, false, true⟩ marker, .positional file.text] := by
    rw [hnamespace, hmarker, ofArguments_long (by decide) rfl rfl rfl,
      ofArguments_long (by decide) rfl rfl rfl]
    rfl
  have hempty : file.text.isEmpty = false := by simpa using hfile
  have hallowed : areAllowed 1 [.option ⟨"namespace", none, true, false, true⟩ home,
      .option ⟨"marker", none, true, false, true⟩ marker, .positional file.text] = true := by
    simp [areAllowed, Item.valueOf?, hempty]
  show Invocation.ofCommand false "ir" _ = _
  have hform : Command.form? "ir" = some (describeForms, 1, describeOf) := rfl
  rw [Invocation.ofCommand, if_neg (by decide), hform]
  simp only [Option.bind_eq_bind, Option.bind_some, hitems, hallowed, if_true]
  rfl

/-! ## Both drivers -/

section

variable {t : FileTree} {file : Location} {home : Namespace} {marker : String}

theorem describe_of_error {e : SourceError} (h : rootsOf t file home marker = .error e) :
    describe t file home marker = .failure t := by
  rw [describe, h]

/-- What is printed for a file that parses, and how the command ends. -/
theorem describe_of_ok {roots : List Root} (h : rootsOf t file home marker = .ok roots) :
    (describe t file home marker).output =
        (Json.array ((descriptionsOf roots).map StoreDescription.toJson)).pretty ++ "\n" ∧
      ((describe t file home marker).status ≠ 0 ↔ ∃ r ∈ roots, r.describe.toOption = none) := by
  have hall : (descriptionsOf roots).length = roots.length ↔
      ¬ ∃ r ∈ roots, r.describe.toOption = none := by
    rw [descriptionsOf, List.filterMap_length_eq_length]
    simp [Option.isSome_iff_ne_none]
  unfold describe
  rw [h]
  refine ⟨rfl, ?_⟩
  show (if (descriptionsOf roots).length = roots.length then 0 else 1) ≠ 0 ↔ _
  split
  · next heq => simpa using hall.mp heq
  · next hne => simpa using hall.not.mp hne

end

theorem malformed_of_error {f : SourceFile} {marker : String} {e : SourceError}
    (h : f.roots marker = .error e) : e = .malformed f.path := by
  unfold SourceFile.roots at h
  split at h
  · cases h
  · exact (Except.error.inj h).symm

section

variable {g : Generator} {root : Location} {t t' : FileTree} {v : Visit} {text : String}
variable {arguments : List String} {jsonLogs : Bool}

/-- What is printed for a file, and how the command ends, when a batch comes to the file and finds the
    same text. -/
theorem run_describe (hplain : PlainBelow v.directory v.file)
    (hread : v.state.2.2.readText v.file = .ok text) (hread' : t'.readText v.file = .ok text)
    (harguments : Invocation.ofArguments arguments = some ⟨jsonLogs,
      .describe v.file (moduleNamespace v.directory v.file).toText g.marker⟩) :
    (run arguments t').output = (if v.errors g = [] then
        (Json.array ((v.descriptions g).map StoreDescription.toJson)).pretty ++ "\n" else "") ∧
      ((run arguments t').status ≠ 0 ↔
        (∃ f ∈ v.failures g, f.isUndescribed = true) ∨ .malformed v.file ∈ v.errors g) := by
  have hrun : run arguments t' =
      describe t' v.file (moduleNamespace v.directory v.file) g.marker := by
    rw [run, harguments]
    show describe t' v.file (.parse (moduleNamespace v.directory v.file).toText) g.marker = _
    rw [parse_moduleNamespace hplain]
  have hroots : v.roots g = rootsOf t' v.file (moduleNamespace v.directory v.file) g.marker := by
    rw [Visit.roots, Generator.rootsOfFile, rootsOf, hread, hread']
  cases hfound : v.roots g with
  | error e =>
      obtain ⟨hnone, hone⟩ := Visit.recorded_of_error hfound
      have hmalformed : e = .malformed v.file := by
        rw [Visit.roots, Generator.rootsOfFile, hread] at hfound
        exact malformed_of_error hfound
      have hfails : run arguments t' = .failure t' := hrun.trans (describe_of_error (hroots ▸ hfound))
      rw [hfails, hnone, hone, hmalformed]
      exact ⟨rfl, iff_of_true Nat.one_ne_zero (Or.inr List.mem_cons_self)⟩
  | ok roots =>
      obtain ⟨hnone, hundescribed⟩ := Visit.recorded_of_ok hfound
      obtain ⟨houtput, hstatus⟩ := describe_of_ok (hroots ▸ hfound)
      have hdescriptions : v.descriptions g = descriptionsOf roots := by
        rw [Visit.descriptions, hfound]
        rfl
      rw [hrun, hnone, hdescriptions, if_pos rfl, hundescribed]
      exact ⟨houtput, hstatus.trans (or_iff_left List.not_mem_nil).symm⟩

/-- **What is printed for a file is what a batch generates from it.** A batch over all source
    directories comes to a file whose path below its directory reads back, and finds some text in it.
    The command that is told the namespace of the file prints, in order, the descriptions of the units
    that the batch hands to its sink for the file, and nothing if the file does not parse. It fails
    where the batch records, for this file, a declaration without a description or an error of
    parsing, and not where only the sink refuses a unit. -/
theorem describe_agrees (hv : v ∈ g.visits root t) (hplain : PlainBelow v.directory v.file)
    (hread : v.state.2.2.readText v.file = .ok text) (hread' : t'.readText v.file = .ok text)
    (harguments : Invocation.ofArguments arguments = some ⟨jsonLogs,
      .describe v.file (moduleNamespace v.directory v.file).toText g.marker⟩) :
    v.handed g = (v.descriptions g).map (fun d => d.emit g.options) ∧
      (run arguments t').output = (if v.errors g = [] then
        (Json.array ((v.descriptions g).map StoreDescription.toJson)).pretty ++ "\n" else "") ∧
      ((run arguments t').status ≠ 0 ↔
        (∃ f ∈ v.failures g, f.isUndescribed = true) ∨ .malformed v.file ∈ v.errors g) ∧
      v.state.1.failures ++ v.failures g <+: (g.run root t).1.failures ∧
      v.state.1.sourceErrors ++ v.errors g <+: (g.run root t).1.sourceErrors := by
  obtain ⟨houtput, hstatus⟩ := run_describe hplain hread hread' harguments
  obtain ⟨hfailures, herrors⟩ := Generator.recorded_of_visit hv
  exact ⟨v.handed_eq g, houtput, hstatus, hfailures, herrors⟩

end

/-! ## Instances -/

/-- A directory with a store root, and one with a module that has a store root in a module of its own
    and a declaration without a description. -/
def panelTree : FileTree :=
  .directory [("app", .directory [("lib.rs", .file (.text "#[flow_store] struct App;"))]),
    ("src", .directory [("ui", .directory [("panel.rs", .file (.text
      "mod inner \x7b #[flow_store] struct Row \x7b n: u8 \x7d \x7d #[flow_store] struct Pair(u8);"))])])]

/-- A batch over both directories. -/
def panelBatch : Generator := .overSources ["app", "src"] "gen"

/-- The batch comes to the second directory when it has generated from the first one. -/
def panelVisit : Visit where
  directory := ⟨"src"⟩
  file := ⟨"src/ui/panel.rs"⟩
  state := panelBatch.runDirectory (Report.empty, DirectorySink.new ⟨"gen"⟩, panelTree) ⟨"app"⟩

theorem panelVisit_mem : panelVisit ∈ panelBatch.visits ⟨"gen"⟩ panelTree := by
  have hfiles : panelVisit.state.2.2.filesWithExtension ⟨"src"⟩ "rs" =
      some [⟨"src/ui/panel.rs"⟩] := by decide +kernel
  have hvisits : panelBatch.visitsOfDirectory panelVisit.state ⟨"src"⟩ = [panelVisit] := by
    rw [Generator.visitsOfDirectory, hfiles]
    rfl
  refine List.mem_append_right _ (List.mem_append_left _ ?_)
  exact hvisits ▸ List.mem_cons_self

theorem panelVisit_plain : PlainBelow panelVisit.directory panelVisit.file where
  components := by decide +kernel
  name := ⟨"panel.rs", by decide +kernel, by decide +kernel⟩

/-- Not all declarations of the file have a description. -/
theorem panelVisit_roots : ∃ roots, panelVisit.roots panelBatch = .ok roots ∧
    ∃ r ∈ roots, r.describe.toOption = none := by
  have hany : (panelVisit.roots panelBatch).toOption.any
      (fun roots => roots.any fun r => r.describe.toOption.isNone) = true := by decide +kernel
  cases hfound : panelVisit.roots panelBatch with
  | error e =>
      rw [hfound] at hany
      cases hany
  | ok roots =>
      rw [hfound] at hany
      obtain ⟨r, hr, hnone⟩ := List.any_eq_true.mp hany
      exact ⟨roots, rfl, r, hr, Option.isNone_iff_eq_none.mp hnone⟩

/-- Asks for the descriptions of the file. -/
def panelArguments : List String :=
  ["ir", "--namespace=" ++ "crate::ui::panel", "--marker=" ++ "flow_store", "--", "src/ui/panel.rs"]

/-- What was printed for the file before the batch is what the batch generates from it. -/
theorem describe_agrees_panel :
    panelVisit ∈ panelBatch.visits ⟨"gen"⟩ panelTree ∧
    PlainBelow panelVisit.directory panelVisit.file ∧
    panelVisit.state.2.2.readText panelVisit.file = panelTree.readText panelVisit.file ∧
    (panelVisit.descriptions panelBatch).map (fun d => (d.home.toText, d.root)) =
      [("crate::ui::panel::inner", "Row")] ∧
    (run panelArguments panelTree).output =
      (Json.array ((panelVisit.descriptions panelBatch).map StoreDescription.toJson)).pretty ++ "\n" ∧
    (run panelArguments panelTree).status ≠ 0 := by
  obtain ⟨text, hread⟩ : ∃ text, panelTree.readText panelVisit.file = .ok text := ⟨_, rfl⟩
  have hthere : panelVisit.state.2.2.readText panelVisit.file = panelTree.readText panelVisit.file := by
    decide +kernel
  have hhome : "crate::ui::panel" = (moduleNamespace panelVisit.directory panelVisit.file).toText := by
    decide +kernel
  have harguments : Invocation.ofArguments panelArguments = some ⟨false, .describe panelVisit.file
      (moduleNamespace panelVisit.directory panelVisit.file).toText panelBatch.marker⟩ := by
    rw [← hhome]
    exact @ofArguments_describe ⟨"src/ui/panel.rs"⟩ (by decide) "crate::ui::panel" "flow_store"
  obtain ⟨-, houtput, hstatus, -, -⟩ :=
    describe_agrees panelVisit_mem panelVisit_plain (hthere.trans hread) hread harguments
  obtain ⟨roots, hroots, hundescribed⟩ := panelVisit_roots
  obtain ⟨herrors, hfailures⟩ := Visit.recorded_of_ok hroots
  rw [if_pos herrors] at houtput
  exact ⟨panelVisit_mem, panelVisit_plain, hthere, by decide +kernel, houtput,
    hstatus.mpr (Or.inl (hfailures.mpr hundescribed))⟩

/-- A file whose name has a blank in front of its extension. -/
def blankTree : FileTree :=
  .directory [("src", .directory [("x .rs", .file (.text "#[flow_store] struct A;"))])]

/-- A batch over the directory of the file. -/
def blankBatch : Generator := .overSources ["src"] "gen"

/-- The batch comes to the file first. -/
def blankVisit : Visit where
  directory := ⟨"src"⟩
  file := ⟨"src/x .rs"⟩
  state := (Report.empty, DirectorySink.new ⟨"gen"⟩, blankTree)

/-- **Blanks in front of the extension are lost.** No component of the path has a colon or blanks
    around it, but the module has: the namespace that the command is told does not read back. What is
    printed is not the description of the unit that the batch hands to its sink. -/
theorem describe_disagrees_blank :
    blankVisit ∈ blankBatch.visits ⟨"gen"⟩ blankTree ∧
    blankVisit.state.2.2.readText blankVisit.file = .ok "#[flow_store] struct A;" ∧
    blankTree.readText blankVisit.file = .ok "#[flow_store] struct A;" ∧
    (∀ c ∈ Location.below blankVisit.directory blankVisit.file,
      ':' ∉ c.text.toList ∧ Text.trim c.text.toList = c.text.toList) ∧
    Invocation.ofArguments ["ir", "src/x .rs", "--namespace", "crate::x ", "--marker", "flow_store"] =
      some ⟨false, .describe blankVisit.file
        (moduleNamespace blankVisit.directory blankVisit.file).toText blankBatch.marker⟩ ∧
    blankVisit.handed blankBatch =
      (blankVisit.descriptions blankBatch).map (fun d => d.emit blankBatch.options) ∧
    (run ["ir", "src/x .rs", "--namespace", "crate::x ", "--marker", "flow_store"] blankTree).output ≠
      (Json.array ((blankVisit.descriptions blankBatch).map StoreDescription.toJson)).pretty ++ "\n" := by
  refine ⟨?_, by decide +kernel, by decide +kernel, by decide +kernel, by decide +kernel,
    blankVisit.handed_eq blankBatch, by decide +kernel⟩
  have hfiles : blankTree.filesWithExtension ⟨"src"⟩ "rs" = some [⟨"src/x .rs"⟩] := by decide +kernel
  have hvisits : blankBatch.visitsOfDirectory blankVisit.state ⟨"src"⟩ = [blankVisit] := by
    rw [Generator.visitsOfDirectory, show blankVisit.state.2.2 = blankTree from rfl, hfiles]
    rfl
  refine List.mem_append_left _ ?_
  exact hvisits ▸ List.mem_cons_self

end ObservableStore.CommandLine
