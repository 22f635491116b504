/-!
# Lines of generated code

Generated code is a list of lines, blank lines and blocks. A block has an opening line, a body one
level further in, and a closing line. A level is four blanks.
-/

namespace ObservableStore

/-- A piece of generated code. -/
inductive Code where
  | line (text : String)
  | blank
  | block (opening : String) (body : List Code) (closing : String)

namespace Code

/-- A block behind a header: the opening brace ends the header's line. -/
def braced (header : String) (body : List Code) : Code :=
  .block (header ++ " \x7b") body "\x7d"

/-- The blanks of a level. -/
def indent (level : Nat) : String :=
  String.ofList (List.replicate (4 * level) ' ')

mutual

/-- The text of a piece at a level. -/
def textAt (level : Nat) : Code → String
  | .line text => indent level ++ text ++ "\n"
  | .blank => "\n"
  | .block opening body closing =>
    indent level ++ opening ++ "\n" ++ textAllAt (level + 1) body ++ indent level ++ closing ++ "\n"

/-- The text of pieces at a level. -/
def textAllAt (level : Nat) : List Code → String
  | [] => ""
  | c :: cs => textAt level c ++ textAllAt level cs

end

/-- The text of a whole unit. -/
def text (cs : List Code) : String :=
  textAllAt 0 cs

end Code

end ObservableStore
