import ObservableStore.Discovery
import ObservableStore.FileTree.Walk
import ObservableStore.Sink.Directory

/-!
# Batches

A batch describes, writes and delivers the wrapper of every store root it is given, in order. What
fails is recorded with its declaration or its source, and the batch goes on. Its report lists what
was generated and what failed.
-/

namespace ObservableStore

/-- The outcome of a batch. -/
structure Report where
  /-- The keys of the units delivered, in order. -/
  generated : List UnitKey
  failures : List Failure
  sourceErrors : List SourceError
deriving DecidableEq, Repr, Inhabited

namespace Report

/-- The report of a batch that has done nothing. -/
def empty : Report := ⟨[], [], []⟩

/-- Whether nothing failed. -/
def isSuccess (r : Report) : Bool :=
  r.failures.isEmpty && r.sourceErrors.isEmpty

/-- A line for every problem, those of sources first. -/
def diagnostics (r : Report) : List String :=
  r.sourceErrors.map SourceError.message ++ r.failures.map Failure.message

/-- Adds the outcome for one declaration. -/
def add (r : Report) : Except Failure GeneratedUnit → Report
  | .ok u => { r with generated := r.generated ++ [u.key] }
  | .error f => { r with failures := r.failures ++ [f] }

/-- Adds the error of a source. -/
def addSourceError (r : Report) (e : SourceError) : Report :=
  { r with sourceErrors := r.sourceErrors ++ [e] }

end Report

/-! ## Declarations -/

/-- A destination whose state is `σ`: what refused a unit, if it was refused, and the state
afterwards. -/
abbrev Destination (σ : Type) := σ → GeneratedUnit → Option SinkError × σ

/-- A sink in memory as a destination. -/
def MemorySink.destination : Destination MemorySink := fun s u =>
  match s.write u with
  | .ok s' => (none, s')
  | .error e => (some e, s)

/-- A sink on a directory as a destination. -/
def DirectorySink.destination : Destination (DirectorySink × FileTree) := fun (s, t) u =>
  s.write t u

/-- Delivers the wrapper of one store root. -/
def deliver {σ : Type} (sink : Destination σ) (o : EmitOptions) (s : σ) (r : Root) :
    Except Failure GeneratedUnit × σ :=
  match r.describe with
  | .error f => (.error f, s)
  | .ok d =>
    let u := d.emit o
    match sink s u with
    | (none, s') => (.ok u, s')
    | (some e, s') => (.error ⟨d.home, d.root, .outputWrite u.name e⟩, s')

/-- Delivers the wrappers of store roots, in order. -/
def deliverAll {σ : Type} (sink : Destination σ) (o : EmitOptions) :
    Report × σ → List Root → Report × σ
  | state, [] => state
  | (report, s), r :: rest =>
    let (outcome, s') := deliver sink o s r
    deliverAll sink o (report.add outcome, s') rest

/-! ## Source directories -/

/-- Why a build step with a batch fails. -/
inductive BuildError where
  | missingOutput
  /-- The batch ran, but something in it failed; a line for every problem. -/
  | failed (diagnostics : List String)
deriving DecidableEq, Repr

/-- The wording of a failed build step. -/
def BuildError.message : BuildError → String
  | .missingOutput => "OUT_DIR is not set; configure an output directory outside build scripts"
  | .failed lines => "store generation failed:\n" ++ "\n".intercalate lines

/-- What a batch over source directories is made with. -/
structure Generator where
  /-- The source directories; none stands for `src`. -/
  sources : List Location
  /-- The output root, unless it follows from the environment. -/
  output : Option Location
  runtimePath : String
  marker : String
deriving DecidableEq, Repr

namespace Generator

/-- The settings where none are given. -/
def standard : Generator := ⟨[], none, defaultRuntimePath, defaultMarker⟩

/-- The source directories of a batch. -/
def sourceDirectories (g : Generator) : List Location :=
  if g.sources.isEmpty then [⟨"src"⟩] else g.sources

/-- The output root: the one that is set, or a directory in the one that the environment names. -/
def outputRoot? (g : Generator) (environment : Option String) : Option Location :=
  match g.output with
  | some l => some l
  | none => environment.map fun dir => Location.push ⟨dir⟩ "flowstore"

/-- How the wrappers of a batch are written. -/
def options (g : Generator) : EmitOptions := ⟨g.runtimePath, .module⟩

/-- The store roots of a file in a source directory. -/
def rootsOfFile (g : Generator) (t : FileTree) (directory file : Location) :
    Except SourceError (List Root) :=
  match t.readText file with
  | .error fault => .error (.unreadable file fault)
  | .ok text => SourceFile.roots ⟨file, moduleNamespace directory file, text⟩ g.marker

/-- The state of a batch: its report, the sink and the file tree. -/
abbrev State := Report × DirectorySink × FileTree

/-- Delivers what a file in a source directory declares. -/
def runFile (g : Generator) (directory : Location) (state : State) (file : Location) : State :=
  match g.rootsOfFile state.2.2 directory file with
  | .ok roots => deliverAll DirectorySink.destination g.options state roots
  | .error e => (state.1.addSourceError e, state.2)

/-- Delivers what the files of a source directory declare. -/
def runDirectory (g : Generator) (state : State) (directory : Location) : State :=
  match state.2.2.filesWithExtension directory "rs" with
  | none => (state.1.addSourceError (.missingDirectory directory), state.2)
  | some files => files.foldl (g.runFile directory) state

/-- The state after a batch over all source directories. -/
def finalState (g : Generator) (root : Location) (t : FileTree) : State :=
  g.sourceDirectories.foldl g.runDirectory (Report.empty, DirectorySink.new root, t)

/-- Runs a batch over all source directories: its report, and the file tree afterwards. -/
def run (g : Generator) (root : Location) (t : FileTree) : Report × FileTree :=
  let (report, _, t') := g.finalState root t
  (report, t')

/-- Runs a batch, if its output root is known. -/
def generate (g : Generator) (environment : Option String) (t : FileTree) :
    Except BuildError (Report × FileTree) :=
  match g.outputRoot? environment with
  | some root => .ok (g.run root t)
  | none => .error .missingOutput

/-- Runs a batch in which nothing may fail. What was written before a failure stays. -/
def compile (g : Generator) (environment : Option String) (t : FileTree) :
    Except BuildError Report × FileTree :=
  match g.generate environment t with
  | .error e => (.error e, t)
  | .ok (report, t') =>
    (if report.isSuccess then .ok report else .error (.failed report.diagnostics), t')

/-- The lines that name the source directories to the build. -/
def registration (g : Generator) : String :=
  String.join (g.sourceDirectories.map fun l => "cargo:rerun-if-changed=" ++ l.text ++ "\n")

end Generator

end ObservableStore
