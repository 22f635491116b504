import ObservableStore.CommandLine.Arguments
import ObservableStore.Config

/-!
# Commands

The command line names one command: to generate wrappers once, to do so again whenever sources
change, or to print the descriptions of the store roots of one file.
-/

namespace ObservableStore.CommandLine

/-- What changes the settings of a batch. -/
structure BatchOptions where
  /-- The configuration file. -/
  config : Location
  /-- Source directories, which replace the configured ones if there are any. -/
  sources : List Location
  output : Option Location
  runtimePath : Option String
deriving DecidableEq, Repr

/-- A command. -/
inductive Command where
  | generate (o : BatchOptions)
  | watch (o : BatchOptions)
  /-- Prints the descriptions of the store roots of a file, which defines the module `home`. -/
  | describe (file : Location) (home marker : String)
  | help
deriving DecidableEq, Repr

/-- A command and how its progress is logged. -/
structure Invocation where
  jsonLogs : Bool
  command : Command
deriving DecidableEq, Repr

/-! ## Options -/

/-- The option for logs as JSON lines. -/
def jsonLogsForm : OptionForm := ⟨"json-logs", none, false, false, true⟩

/-- The options of every command. -/
def sharedForms : List OptionForm := [jsonLogsForm, helpForm]

/-- The options of a batch. -/
def batchForms : List OptionForm :=
  [⟨"config", some 'c', true, false, false⟩, ⟨"source", some 's', true, true, false⟩,
    ⟨"out", some 'o', true, false, false⟩, ⟨"runtime-path", none, true, false, true⟩] ++ sharedForms

/-- The options for describing a file. -/
def describeForms : List OptionForm :=
  [⟨"namespace", none, true, false, true⟩, ⟨"marker", none, true, false, true⟩] ++ sharedForms

/-- The value of an option that is given at most once. -/
def value? (name : String) (items : List Item) : Option String :=
  items.findSome? (Item.valueOf? name)

/-- The options of a batch among items. -/
def BatchOptions.ofItems (items : List Item) : BatchOptions where
  config := ⟨(value? "config" items).getD "flowstore.toml"⟩
  sources := (items.filterMap (Item.valueOf? "source")).map Location.mk
  output := (value? "out" items).map Location.mk
  runtimePath := value? "runtime-path" items

/-- The description of a file that items ask for. -/
def describeOf (items : List Item) : Option Command := do
  let file ← items.findSome? Item.positional?
  return .describe ⟨file⟩ ((value? "namespace" items).getD "crate")
    ((value? "marker" items).getD defaultMarker)

/-! ## Commands -/

namespace Command

/-- The options that the command with a name takes, the number of its positional arguments, and
the command that items make of it. -/
def form? : String → Option (List OptionForm × Nat × (List Item → Option Command))
  | "generate" => some (batchForms, 0, fun items => some (.generate (.ofItems items)))
  | "watch" => some (batchForms, 0, fun items => some (.watch (.ofItems items)))
  | "ir" => some (describeForms, 1, describeOf)
  | _ => none

/-- Reads the arguments of a request for help, which may name a command. -/
def helpOf : List String → Option Command
  | [] => some .help
  | [name] => if name == "help" || (form? name).isSome then some .help else none
  | _ => none

end Command

namespace Invocation

/-- Reads what follows the options in front of the command's name. -/
def ofCommand (jsonLogs : Bool) (name : String) (arguments : List String) : Option Invocation :=
  if name = "help" then (Command.helpOf arguments).map fun c => ⟨jsonLogs, c⟩
  else do
    let (forms, positionals, command) ← Command.form? name
    let items ← Item.ofArguments forms arguments
    if areAllowed positionals items then
      let logged := jsonLogs || (value? jsonLogsForm.name items).isSome
      if items.any Item.isHelp then return ⟨logged, .help⟩
      else return ⟨logged, ← command items⟩
    else none

/-- Reads a command line; `logged` tells whether logs as JSON lines were asked for before. -/
def ofArgumentsFrom (logged : Bool) : List String → Option Invocation
  | [] => none
  | argument :: rest =>
    match argumentItems sharedForms argument with
    | some ([.positional name], _) => ofCommand logged name rest
    | some ([.option f _], _) =>
      if f == helpForm then some ⟨logged, .help⟩
      else if logged then none
      else ofArgumentsFrom true rest
    | _ => none

/-- Reads a command line; nothing comes of one that is not well formed. -/
def ofArguments (arguments : List String) : Option Invocation :=
  ofArgumentsFrom false arguments

end Invocation

end ObservableStore.CommandLine
