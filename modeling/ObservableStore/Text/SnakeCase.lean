import ObservableStore.Text.LetterCase

/-!
# Snake case

A name in capitals and small letters is cut into words, each word is written in lower case, and the
words are joined by underscores: `UiState` and `UIState` both become `ui_state`.

A word ends before every character that is neither a letter nor a number, between a lower-case and
an upper-case character, and before the last capital of a run that a small letter follows. Numbers
belong to the word they stand in and do not change which case was seen last.
-/

namespace ObservableStore.Text

/-- The case of the last cased character of a word so far. -/
inductive LastCase where
  | uncased
  | lower
  | upper
deriving DecidableEq, Repr

/-- The case seen last once a further character has been read. -/
def LastCase.after (m : LastCase) (c : Char) : LastCase :=
  if isLower c then .lower else if isUpper c then .upper else m

/-- Cuts a run of letters and numbers at its changes of case; `word` is the current word, reversed. -/
def cutAtCase (m : LastCase) (word : List Char) : List Char → List (List Char)
  | [] => if word.isEmpty then [] else [word.reverse]
  | [c] => [(c :: word).reverse]
  | c :: next :: rest =>
    if m.after c = .lower ∧ isUpper next then
      (c :: word).reverse :: cutAtCase .uncased [] (next :: rest)
    else if m = .upper ∧ isUpper c ∧ isLower next then
      word.reverse :: cutAtCase .uncased [c] (next :: rest)
    else
      cutAtCase (m.after c) (c :: word) (next :: rest)

/-- Cuts a text at its characters that are neither letters nor numbers; `run` is the current run,
reversed. -/
def alphanumericRuns (run : List Char) : List Char → List (List Char)
  | [] => [run.reverse]
  | c :: rest =>
    if isAlphanumeric c then alphanumericRuns (c :: run) rest
    else run.reverse :: alphanumericRuns [] rest

/-- The words of a name. -/
def words (cs : List Char) : List (List Char) :=
  (alphanumericRuns [] cs).flatMap (cutAtCase .uncased [])

/-- A word in lower case; a sigma at the end takes its final form. -/
def lowerWord : List Char → List Char
  | [] => []
  | [c] => if c.toNat == 0x3A3 then [Char.ofNat 0x3C2] else lowerForm c
  | c :: rest => lowerForm c ++ lowerWord rest

/-- A name in snake case. -/
def snakeCase (s : String) : String :=
  "_".intercalate ((words s.toList).map (fun w => String.ofList (lowerWord w)))

/-! ## Nothing but separators is lost -/

theorem cutAtCase_flatten (m : LastCase) (word cs : List Char) :
    (cutAtCase m word cs).flatten = word.reverse ++ cs := by
  fun_induction cutAtCase m word cs with
  | case1 m word h =>
    have hw : word = [] := by simpa using h
    simp [hw]
  | case2 m word h => simp
  | case3 m word c => simp
  | case4 m word c next rest h ih => simp [ih]
  | case5 m word c next rest h h' ih => simp [ih]
  | case6 m word c next rest h h' ih => simp [ih]

theorem alphanumericRuns_flatten (run cs : List Char) :
    (alphanumericRuns run cs).flatten = run.reverse ++ cs.filter isAlphanumeric := by
  induction cs generalizing run with
  | nil => simp [alphanumericRuns]
  | cons c rest ih =>
    unfold alphanumericRuns
    cases h : isAlphanumeric c with
    | true => simp [ih, h]
    | false => simp [ih, h]

/-- The words of a name hold its letters and numbers, in order. -/
theorem words_flatten (cs : List Char) : (words cs).flatten = cs.filter isAlphanumeric := by
  have hcut : ∀ rs : List (List Char),
      (rs.flatMap (cutAtCase .uncased [])).flatten = rs.flatten := by
    intro rs
    induction rs with
    | nil => rfl
    | cons r rs ih => simp [ih, cutAtCase_flatten]
  simp [words, hcut, alphanumericRuns_flatten]

end ObservableStore.Text
