/-!
# Arguments

The arguments of a command are options and positional arguments. An option is written `--name` or,
if it has a short form, `-n`; its value stands in the next argument, behind `=`, or right behind the
short form. Short forms without values can be joined. Behind `--` everything is positional.

`Item.ofArguments` reads the arguments in order, and stops where help is asked for.
-/

namespace ObservableStore.CommandLine

/-- How an option is written. -/
structure OptionForm where
  name : String
  short : Option Char
  takesValue : Bool
  /-- Whether the option may be given several times. -/
  repeatable : Bool
  /-- Whether the value may be empty. -/
  mayBeEmpty : Bool
deriving DecidableEq, Repr

/-- The request for help. -/
def helpForm : OptionForm := ⟨"help", some 'h', false, true, true⟩

/-- What an argument says. -/
inductive Item where
  | option (form : OptionForm) (value : String)
  | positional (text : String)
deriving DecidableEq, Repr

namespace Item

/-- Whether an item asks for help. -/
def isHelp : Item → Bool
  | .option f _ => f == helpForm
  | .positional _ => false

/-- The value of an option, if the item gives it. -/
def valueOf? (name : String) : Item → Option String
  | .option f v => if f.name = name then some v else none
  | .positional _ => none

/-- A positional argument. -/
def positional? : Item → Option String
  | .positional s => some s
  | .option .. => none

end Item

/-! ## Single arguments -/

/-- Whether an argument can be a value: it does not look like an option. -/
def isValue (argument : String) : Bool :=
  match argument.toList with
  | '-' :: _ :: _ => false
  | _ => true

/-- The text behind a leading `=`, or the text itself. -/
def withoutEquals : List Char → List Char
  | '=' :: rest => rest
  | cs => cs

/-- What an argument of short forms says: its items, and the form that takes its value from the
next argument, if the last one does. -/
def shortItems (forms : List OptionForm) : List Char → Option (List Item × Option OptionForm)
  | [] => some ([], none)
  | c :: rest =>
    match forms.find? fun f => f.short == some c with
    | none => none
    | some f =>
      if f.takesValue then
        if rest.isEmpty then some ([], some f)
        else some ([.option f (String.ofList (withoutEquals rest))], none)
      else if f == helpForm then some ([.option f ""], none)
      else (shortItems forms rest).map fun found => (.option f "" :: found.1, found.2)

/-- What an argument with a long name says. -/
def longItems (forms : List OptionForm) (text : List Char) :
    Option (List Item × Option OptionForm) :=
  let name := String.ofList (text.takeWhile (· ≠ '='))
  match forms.find? fun f => f.name == name, text.dropWhile (· ≠ '=') with
  | none, _ => none
  | some f, [] => if f.takesValue then some ([], some f) else some ([.option f ""], none)
  | some f, _ :: value =>
    if f.takesValue then some ([.option f (String.ofList value)], none) else none

/-- What an argument in front of `--` says. -/
def argumentItems (forms : List OptionForm) (argument : String) :
    Option (List Item × Option OptionForm) :=
  match argument.toList with
  | '-' :: '-' :: text => longItems forms text
  | '-' :: c :: text => shortItems forms (c :: text)
  | _ => some ([.positional argument], none)

/-! ## All arguments -/

/-- Reads arguments up to a request for help. -/
def Item.ofArguments (forms : List OptionForm) : List String → Option (List Item)
  | [] => some []
  | argument :: rest =>
    if argument = "--" then some (rest.map .positional)
    else match argumentItems forms argument with
      | none => none
      | some (items, none) =>
        if items.any isHelp then some items
        else (ofArguments forms rest).map (items ++ ·)
      | some (items, some f) =>
        match rest with
        | [] => none
        | value :: rest =>
          if isValue value then
            (ofArguments forms rest).map fun more => items ++ .option f value :: more
          else none

/-- Whether every option is given as often as it may be, every value is as long as it must be, and
there are no more positional arguments than a number, none of them empty. -/
def areAllowed (positionals : Nat) : List Item → Bool
  | [] => true
  | .positional s :: rest =>
    positionals != 0 && !s.isEmpty && areAllowed (positionals - 1) rest
  | .option f v :: rest =>
    (f.mayBeEmpty || !v.isEmpty) &&
      (f.repeatable || !rest.any fun i => (i.valueOf? f.name).isSome) &&
      areAllowed positionals rest

end ObservableStore.CommandLine
