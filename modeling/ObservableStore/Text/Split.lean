/-!
# Splitting and joining

Texts as lists of characters, cut at a character (`splitAtChar`) or at a pair of equal characters
(`splitAtPair`), and joined again (`join`). Cutting always gives at least one piece, and the pieces
of a cut hold what lies between the separators, empty pieces included.
-/

namespace ObservableStore.Text

/-- Puts a character in front of the first piece. -/
def consFirst (c : Char) : List (List Char) → List (List Char)
  | [] => [[c]]
  | p :: ps => (c :: p) :: ps

/-- Cuts at every occurrence of a character. -/
def splitAtChar (sep : Char) : List Char → List (List Char)
  | [] => [[]]
  | c :: rest => if c = sep then [] :: splitAtChar sep rest else consFirst c (splitAtChar sep rest)

/-- Cuts at every pair of the separator character, from left to right. -/
def splitAtPair (sep : Char) : List Char → List (List Char)
  | [] => [[]]
  | [c] => [[c]]
  | c :: d :: rest =>
    if c = sep ∧ d = sep then [] :: splitAtPair sep rest
    else consFirst c (splitAtPair sep (d :: rest))

/-- Joins pieces with a separator between them. -/
def join (sep : List Char) : List (List Char) → List Char
  | [] => []
  | [p] => p
  | p :: q :: ps => p ++ sep ++ join sep (q :: ps)

theorem splitAtChar_ne_nil (sep : Char) (cs : List Char) : splitAtChar sep cs ≠ [] := by
  cases cs with
  | nil => simp [splitAtChar]
  | cons c rest =>
    unfold splitAtChar
    split
    · simp
    · cases splitAtChar sep rest <;> simp [consFirst]

theorem splitAtChar_of_not_mem {sep : Char} {p : List Char} (h : sep ∉ p) :
    splitAtChar sep p = [p] := by
  induction p with
  | nil => rfl
  | cons c rest ih =>
    have hc : c ≠ sep := fun e => h (by simp [e])
    have hrest : sep ∉ rest := fun m => h (by simp [m])
    simp [splitAtChar, hc, ih hrest, consFirst]

theorem splitAtChar_append {sep : Char} {p : List Char} (h : sep ∉ p) (rest : List Char) :
    splitAtChar sep (p ++ sep :: rest) = p :: splitAtChar sep rest := by
  induction p with
  | nil => simp [splitAtChar]
  | cons c p ih =>
    have hc : c ≠ sep := fun e => h (by simp [e])
    have hp : sep ∉ p := fun m => h (by simp [m])
    simp [splitAtChar, hc, ih hp, consFirst]

end ObservableStore.Text
