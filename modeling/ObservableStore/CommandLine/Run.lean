import ObservableStore.CommandLine.Command
import ObservableStore.Watch

/-!
# Running commands

A command works on a file tree and ends with an exit status: 0 if all went well, 1 if something
failed, 2 if the command line was not well formed.
-/

namespace ObservableStore.CommandLine

/-- How a command ends. -/
structure Outcome where
  status : Nat
  /-- What was printed. -/
  output : String
  tree : FileTree

/-- The outcome of a command that fails and prints nothing. -/
def Outcome.failure (t : FileTree) : Outcome := ⟨1, "", t⟩

/-! ## Batches -/

/-- The settings with what is changed on the command line. -/
def BatchOptions.applyTo (o : BatchOptions) (c : Config) : Config where
  sourceDirectories := if o.sources.isEmpty then c.sourceDirectories else o.sources
  outputDirectory := o.output.getD c.outputDirectory
  runtimePath := o.runtimePath.getD c.runtimePath
  marker := c.marker

/-- The settings of a batch from its configuration file and the command line. -/
def BatchOptions.settings (o : BatchOptions) (t : FileTree) : Except Config.LoadError Config :=
  (Config.loadOrStandard t o.config).map o.applyTo

/-- Runs a batch. -/
def generate (o : BatchOptions) (t : FileTree) : Outcome :=
  match o.settings t with
  | .error _ => .failure t
  | .ok c =>
    let (report, t') := c.generator.run c.outputDirectory t
    ⟨if report.isSuccess then 0 else 1, "", t'⟩

/-- Starts watching and runs the first batch, whatever its outcome. -/
def watch (o : BatchOptions) (t : FileTree) : Outcome :=
  match o.settings t with
  | .error _ => .failure t
  | .ok c =>
    match Watch.start c.generator none t with
    | (t', false) => .failure t'
    | (t', true) => ⟨0, "", (c.generator.run c.outputDirectory t').2⟩

/-! ## Descriptions -/

/-- The store roots of a file that defines the module with a namespace. -/
def rootsOf (t : FileTree) (file : Location) (home : Namespace) (marker : String) :
    Except SourceError (List Root) :=
  match t.readText file with
  | .error fault => .error (.unreadable file fault)
  | .ok text => SourceFile.roots ⟨file, home, text⟩ marker

/-- The descriptions of the store roots that have one. -/
def descriptionsOf (roots : List Root) : List StoreDescription :=
  roots.filterMap fun r => r.describe.toOption

/-- Prints the descriptions of the store roots of a file. -/
def describe (t : FileTree) (file : Location) (home : Namespace) (marker : String) : Outcome :=
  match rootsOf t file home marker with
  | .error _ => .failure t
  | .ok roots =>
    let found := descriptionsOf roots
    ⟨if found.length = roots.length then 0 else 1,
      (Json.array (found.map StoreDescription.toJson)).pretty ++ "\n", t⟩

/-! ## Commands -/

/-- Runs a command. -/
def Command.run (t : FileTree) : Command → Outcome
  | .generate o => CommandLine.generate o t
  | .watch o => CommandLine.watch o t
  | .describe file home marker => CommandLine.describe t file (.parse home) marker
  | .help => ⟨0, "", t⟩

/-- Runs the program with arguments. -/
def run (arguments : List String) (t : FileTree) : Outcome :=
  match Invocation.ofArguments arguments with
  | some invocation => invocation.command.run t
  | none => ⟨2, "", t⟩

end ObservableStore.CommandLine
