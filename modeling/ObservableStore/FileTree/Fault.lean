/-!
# Faults of a file tree

Why reading or writing a place in a file tree can fail, with the number and the wording under which
each fault is known.
-/

namespace ObservableStore

/-- Why an operation on a file tree fails. -/
inductive FileFault where
  | notFound
  | alreadyThere
  | notADirectory
  | isADirectory
  | invalidName
  /-- A name or a location has more bytes than one may have. -/
  | nameTooLong
  /-- A file that should hold text holds other bytes. -/
  | notText
deriving DecidableEq, Repr

/-- The number of a fault, if it has one. -/
def FileFault.number? : FileFault → Option Nat
  | .notFound => some 2
  | .alreadyThere => some 17
  | .notADirectory => some 20
  | .isADirectory => some 21
  | .invalidName => none
  | .nameTooLong => some 36
  | .notText => none

/-- The wording of a fault without its number. -/
def FileFault.wording : FileFault → String
  | .notFound => "No such file or directory"
  | .alreadyThere => "File exists"
  | .notADirectory => "Not a directory"
  | .isADirectory => "Is a directory"
  | .invalidName => "file name contained an unexpected NUL byte"
  | .nameTooLong => "File name too long"
  | .notText => "stream did not contain valid UTF-8"

/-- The wording of a fault. -/
def FileFault.message (f : FileFault) : String :=
  match f.number? with
  | some n => f.wording ++ " (os error " ++ toString n ++ ")"
  | none => f.wording

end ObservableStore
