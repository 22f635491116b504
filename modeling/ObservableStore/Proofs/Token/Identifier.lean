import ObservableStore.Proofs.Token.Word

/-!
# `Proofs.Token.Identifier` — identifiers are words

Every identifier, behind a raw mark or not, is a word of source text (`isWord_iff`): no character that
begins an identifier is a blank. What can follow in an identifier ends no line, so a word stands on
one line.
-/

namespace ObservableStore.Lexeme

open Text (isIdentifierStart isIdentifierContinue isIdentifierText isLexicalBlank)

variable {w : List Char} {c : Char}

/-- The blanks beyond ASCII. -/
def farBlanks : List Nat :=
  [0x85, 0xA0, 0x1680] ++ List.range' 0x2000 11 ++
    [0x2028, 0x2029, 0x202F, 0x205F, 0x3000, 0x200E, 0x200F]

-- the table of the characters is one long text, which is taken apart here
set_option maxRecDepth 100000 in
theorem identifierStartRanges_farBlanks :
    farBlanks.all (fun n => !Text.identifierStartRanges.mem n) = true := by
  refine (congrArg (fun cs => farBlanks.all fun n =>
    !Text.Ranges.mem ((Text.entriesOf [] cs).map Text.CodeRange.ofEntry) n)
      String.toList_ofList).trans ?_
  decide +kernel

/-- What begins an identifier is no blank. -/
theorem isLexicalBlank_of_start (h : isIdentifierStart c = true) : isLexicalBlank c = false := by
  rw [← Bool.not_eq_true]
  intro hblank
  simp only [isLexicalBlank, Text.isBlank, Bool.or_eq_true, Bool.and_eq_true, decide_eq_true_eq,
    beq_iff_eq] at hblank
  rw [isIdentifierStart] at h
  split at h
  · next hnear =>
      have hlow : c.toNat ≤ 0x20 := by omega
      have hmem : c.toNat ∈ [9, 10, 11, 12, 13, 0x20] := by
        simp only [List.mem_cons, List.not_mem_nil, or_false]
        omega
      have hc : c = Char.ofNat c.toNat := (Char.ofNat_toNat c).symm
      simp only [List.mem_cons, List.not_mem_nil, or_false] at hmem
      rw [hc] at h
      rcases hmem with hn | hn | hn | hn | hn | hn <;> rw [hn] at h <;> exact absurd h (by decide)
  · next hfar =>
      have hmem : c.toNat ∈ farBlanks := by
        simp only [farBlanks, List.mem_append, List.mem_cons, List.not_mem_nil, or_false,
          List.mem_range'_1]
        omega
      have hnone := List.all_eq_true.mp identifierStartRanges_farBlanks _ hmem
      rw [h] at hnone
      cases hnone

/-- **A word is an identifier**, behind a raw mark or not. -/
theorem isWord_iff : IsWord w ↔ isIdentifierText w = true ∨
    ∃ v, w = 'r' :: '#' :: v ∧ isIdentifierText v = true ∧ isUnmarkable v = false := by
  refine ⟨IsWord.named, fun hnamed => ⟨hnamed, ?_⟩⟩
  intro c hc
  rcases hnamed with hplain | ⟨v, rfl, -, -⟩
  · cases w with
    | nil => cases hplain
    | cons d rest =>
        obtain rfl := Option.some.inj hc
        exact isLexicalBlank_of_start (isIdentifierText_cons.mp hplain).1
  · obtain rfl := Option.some.inj hc
    decide

theorem isIdentifierText_append {v : List Char} (hw : isIdentifierText w = true)
    (hv : v.all isIdentifierContinue = true) : isIdentifierText (w ++ v) = true := by
  cases w with
  | nil => cases hw
  | cons c w =>
      obtain ⟨hstart, hcontinue⟩ := isIdentifierText_cons.mp hw
      exact isIdentifierText_cons.mpr
        ⟨hstart, List.forall_mem_append.mpr ⟨hcontinue, List.all_eq_true.mp hv⟩⟩

/-- A word with a long enough ending is a word: it is none of those that bear no mark. -/
theorem IsWord.append {v : List Char} (hw : IsWord w) (hv : v.all isIdentifierContinue = true)
    (hlength : 5 ≤ v.length) : IsWord (w ++ v) := by
  rcases hw.named with hplain | ⟨u, rfl, hu, -⟩
  · exact isWord_iff.mpr (Or.inl (isIdentifierText_append hplain hv))
  · refine isWord_iff.mpr (Or.inr ⟨u ++ v, rfl, isIdentifierText_append hu hv, ?_⟩)
    have hlonger : 5 < (u ++ v).length := by
      cases u with
      | nil => cases hu
      | cons c u =>
          simp only [List.cons_append, List.length_cons, List.length_append]
          omega
    have hne (s : String) (hs : s.toList.length ≤ 5) : (u ++ v == s.toList) = false := by
      refine beq_eq_false_iff_ne.mpr fun heq => ?_
      rw [heq] at hlonger
      omega
    simp only [isUnmarkable, hne "_" (by decide), hne "super" (by decide), hne "self" (by decide),
      hne "Self" (by decide), hne "crate" (by decide), Bool.or_self]

/-- A text that ends no line and holds no carriage return. -/
def OneLine (cs : List Char) : Prop := ∀ c ∈ cs, c ≠ '\n' ∧ c ≠ '\r'

-- the characters of the text are looked at, not all that there are
instance (cs : List Char) : Decidable (OneLine cs) :=
  List.decidableBAll (fun c => c ≠ '\n' ∧ c ≠ '\r') cs

theorem oneLine_append {v : List Char} : OneLine (v ++ w) ↔ OneLine v ∧ OneLine w :=
  List.forall_mem_append

/-- The characters of a word can stand in an identifier, but for the mark. -/
theorem IsWord.continues (hw : IsWord w) (hc : c ∈ w) : isIdentifierContinue c = true ∨ c = '#' := by
  have hall {v : List Char} (hv : isIdentifierText v = true) (hc : c ∈ v) :
      isIdentifierContinue c = true := by
    cases v with
    | nil => cases hc
    | cons d v =>
        obtain ⟨hstart, hcontinue⟩ := isIdentifierText_cons.mp hv
        rcases List.mem_cons.mp hc with rfl | hc
        · exact Text.isIdentifierContinue_of_start hstart
        · exact hcontinue c hc
  rcases hw.named with hplain | ⟨v, rfl, hv, -⟩
  · exact Or.inl (hall hplain hc)
  · rcases List.mem_cons.mp hc with rfl | hc
    · exact Or.inl (by decide)
    rcases List.mem_cons.mp hc with rfl | hc
    · exact Or.inr rfl
    · exact Or.inl (hall hv hc)

theorem IsWord.oneLine (hw : IsWord w) : OneLine w := by
  intro c hc
  rcases hw.continues hc with hcontinue | rfl
  · exact ⟨ne_of_continue hcontinue (by decide), ne_of_continue hcontinue (by decide)⟩
  · exact ⟨by decide, by decide⟩

end ObservableStore.Lexeme
