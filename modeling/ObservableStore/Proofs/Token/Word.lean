import ObservableStore.Token.Tree

/-!
# `Proofs.Token.Word` — words are read back as themselves

A word of source text is an identifier, perhaps behind the mark `r#` (`IsWord`). All words that are
cut out of a text are of this form (`isWord_of_first?`), and in front of a text that cannot go on
with it a word is cut out as it stands (`first?_word`). It is no literal there, although `r`, `b`
and `c` also begin literals, because no quote and no number sign comes behind it.
-/

namespace ObservableStore.Lexeme

open Text (isIdentifierStart isIdentifierContinue isIdentifierText isLexicalBlank)

variable {w v cs rest : List Char} {c d : Char}

/-- A word as source text has it. It does not begin with a blank. -/
structure IsWord (w : List Char) : Prop where
  named : isIdentifierText w = true ∨
    ∃ v, w = 'r' :: '#' :: v ∧ isIdentifierText v = true ∧ isUnmarkable v = false
  visible : ∀ c, w.head? = some c → isLexicalBlank c = false

/-! ## Characters -/

theorem ne_of_start (h : isIdentifierStart c = true) (hd : isIdentifierStart d = false) : c ≠ d := by
  rintro rfl
  exact absurd (h.symm.trans hd) (by decide)

theorem ne_of_continue (h : isIdentifierContinue c = true) (hd : isIdentifierContinue d = false) :
    c ≠ d := by
  rintro rfl
  exact absurd (h.symm.trans hd) (by decide)

-- the table of the characters is one long text, which is taken apart here
set_option maxRecDepth 100000 in
theorem identifierStartRanges_mark : Text.identifierStartRanges.mem 0xFEFF = false := by
  refine (congrArg (fun cs =>
    Text.Ranges.mem ((Text.entriesOf [] cs).map Text.CodeRange.ofEntry) 0xFEFF)
      String.toList_ofList).trans ?_
  decide +kernel

/-- The mark that names an encoding begins no identifier. -/
theorem isIdentifierStart_mark : isIdentifierStart (Char.ofNat 0xFEFF) = false := by
  have hbeyond : ¬ (Char.ofNat 0xFEFF).toNat < 128 := by decide
  rw [isIdentifierStart, if_neg hbeyond]
  exact identifierStartRanges_mark

/-- An identifier is one character and others that can follow it. -/
theorem isIdentifierText_cons : isIdentifierText (c :: cs) = true ↔
    isIdentifierStart c = true ∧ ∀ x ∈ cs, isIdentifierContinue x = true := by
  simp [isIdentifierText]

/-- A text whose first character is no quote and no number sign. -/
def Quiet (cs : List Char) : Prop := ∀ c, cs.head? = some c → c ≠ '"' ∧ c ≠ '\'' ∧ c ≠ '#'

/-- A text that neither goes on with a word nor makes it the beginning of a literal. -/
structure Ends (rest : List Char) : Prop where
  stops : ∀ c, rest.head? = some c → isIdentifierContinue c = false
  quiet : Quiet rest

theorem quiet_of_continue (h : isIdentifierContinue c = true) (cs : List Char) : Quiet (c :: cs) := by
  intro d hd
  obtain rfl := Option.some.inj hd
  exact ⟨ne_of_continue h (by decide), ne_of_continue h (by decide), ne_of_continue h (by decide)⟩

theorem quiet_append (hw : ∀ x ∈ w, isIdentifierContinue x = true) (hrest : Quiet rest) :
    Quiet (w ++ rest) := by
  cases w with
  | nil => exact hrest
  | cons c tail => exact quiet_of_continue (hw c List.mem_cons_self) _

/-! ## What does not begin with a word -/

theorem after?_cons_ne (mark : String) (first : Char) (more : List Char)
    (hmark : mark.toList = first :: more) (h : c ≠ first) : after? mark (c :: cs) = none := by
  have hne : (first == c) = false := beq_eq_false_iff_ne.mpr h.symm
  simp [after?, startsWith, hmark, List.isPrefixOf, hne]

theorem startsWith_cons_ne (mark : String) (first : Char) (more : List Char)
    (hmark : mark.toList = first :: more) (h : c ≠ first) : startsWith mark (c :: cs) = false := by
  have hne : (first == c) = false := beq_eq_false_iff_ne.mpr h.symm
  simp [startsWith, hmark, List.isPrefixOf, hne]

/-- Two characters of which the second is a quote or a number sign do not begin a quiet text. -/
theorem startsWith_quiet (mark : String) (first second : Char) (more : List Char)
    (hmark : mark.toList = first :: second :: more)
    (hsecond : second = '"' ∨ second = '\'' ∨ second = '#') (h : Quiet cs) :
    startsWith mark (c :: cs) = false := by
  cases cs with
  | nil => simp [startsWith, hmark, List.isPrefixOf]
  | cons d cs =>
      obtain ⟨hquote, hsingle, hsign⟩ := h d rfl
      have hne : (second == d) = false := by
        rw [beq_eq_false_iff_ne]
        rcases hsecond with rfl | rfl | rfl
        · exact hquote.symm
        · exact hsingle.symm
        · exact hsign.symm
      simp [startsWith, hmark, List.isPrefixOf, hne]

theorem raw_quiet (k : StringKind) (h : Quiet cs) : raw k cs = none := by
  cases cs with
  | nil => rfl
  | cons d cs =>
      obtain ⟨hquote, -, hsign⟩ := h d rfl
      have hmarks : (d :: cs).takeWhile (· == '#') = [] := by
        rw [List.takeWhile_cons_of_neg]
        simpa using hsign
      simp only [raw, hmarks, List.length_nil, List.drop_zero]
      split
      · next heq => exact absurd (List.cons.inj heq).1 hquote
      · rfl

/-- A quiet text behind a character that can begin an identifier begins no string literal. -/
theorem string?_eq_none (hc : isIdentifierStart c = true) (ht : Quiet cs)
    (hnext : ∀ d t, cs = d :: t → isIdentifierContinue d = true → Quiet t) :
    string? (c :: cs) = none := by
  have hplain : after? "\"" (c :: cs) = none :=
    after?_cons_ne _ _ _ rfl (ne_of_start hc (by decide))
  have hquoted (mark : String) (first : Char) (hmark : mark.toList = [first, '"']) :
      after? mark (c :: cs) = none := by
    rw [after?, startsWith_quiet mark first '"' [] hmark (Or.inl rfl) ht]
    rfl
  have hb := hquoted "b\"" 'b' rfl
  have hterminated := hquoted "c\"" 'c' rfl
  -- two letters and what follows them, which is quiet again
  have hraw (mark : String) (first : Char) (k : StringKind) (hmark : mark.toList = [first, 'r']) :
      (after? mark (c :: cs)).bind (raw k) = none := by
    rw [after?]
    split
    · next hstarts =>
        rw [startsWith, hmark] at hstarts
        cases cs with
        | nil => simp [List.isPrefixOf] at hstarts
        | cons d t =>
            have hd : 'r' = d := by simpa [List.isPrefixOf] using (Bool.and_eq_true_iff.mp hstarts).2
            subst hd
            rw [hmark]
            exact raw_quiet k (hnext _ _ rfl (by decide))
    · rfl
  have hbytes := hraw "br" 'b' .bytes rfl
  have hcr := hraw "cr" 'c' .terminated rfl
  rw [string?, hplain, hb, hterminated]
  cases hr : after? "r" (c :: cs) with
  | some t =>
      rw [after?] at hr
      split at hr
      · obtain rfl := Option.some.inj hr
        exact raw_quiet .text ht
      · cases hr
  | none =>
      cases hbr : after? "br" (c :: cs) with
      | some t =>
          rw [hbr] at hbytes
          exact hbytes
      | none =>
          cases hcr' : after? "cr" (c :: cs) with
          | some t =>
              rw [hcr'] at hcr
              exact hcr
          | none => rfl

theorem character?_eq_none (hc : isIdentifierStart c = true) (ht : Quiet cs) :
    character? (c :: cs) = none := by
  have hbyte : after? "b'" (c :: cs) = none := by
    rw [after?, startsWith_quiet "b'" 'b' '\'' [] rfl (Or.inr (Or.inl rfl)) ht]
    rfl
  have hplain : after? "'" (c :: cs) = none :=
    after?_cons_ne _ _ _ rfl (ne_of_start hc (by decide))
  rw [character?, hbyte, hplain]
  rfl

theorem isDigit_of_start (hc : isIdentifierStart c = true) : isDigit c = false := by
  rw [← Bool.not_eq_true]
  intro hdigit
  simp only [isDigit, Bool.and_eq_true, decide_eq_true_eq] at hdigit
  have hhigh : c.toNat ≤ 57 := hdigit.2
  have hascii : c.toNat < 128 := by omega
  rw [isIdentifierStart, if_pos hascii, Bool.or_eq_true, beq_iff_eq] at hc
  -- letters and the underscore come behind the digits
  have hlow : 65 ≤ c.toNat := by
    rcases hc with hletter | rfl
    · rcases Bool.or_eq_true_iff.mp hletter with hupper | hlower
      · have hfirst : 'A'.val ≤ c.val := (of_decide_eq_true hupper).1
        exact UInt32.le_iff_toNat_le.mp hfirst
      · have hfirst : 'a'.val ≤ c.val := of_decide_eq_true (Bool.and_eq_true_iff.mp hlower).1
        exact Nat.le_trans (by decide) (UInt32.le_iff_toNat_le.mp hfirst)
    · decide
  omega

/-- A character that can begin an identifier begins no number. -/
theorem number_eq_none (hc : isIdentifierStart c = true) :
    fraction? (c :: cs) = none ∧ whole? (c :: cs) = none := by
  have hdigit := isDigit_of_start hc
  have hmark (mark : String) (more : List Char) (hmark : mark.toList = '0' :: more) :
      after? mark (c :: cs) = none := after?_cons_ne _ _ _ hmark (ne_of_start hc (by decide))
  refine ⟨?_, ?_⟩
  · rw [fraction?, hdigit]
    rfl
  · rw [whole?, hmark "0x" ['x'] rfl, hmark "0o" ['o'] rfl, hmark "0b" ['b'] rfl, hdigit]
    by_cases hunderscore : c = '_'
    · subst hunderscore
      rfl
    · have hne : (c == '_') = false := beq_eq_false_iff_ne.mpr hunderscore
      rw [hne]
      rfl

/-- A character that can begin an identifier is no punctuation and no delimiter. -/
theorem isPunct_of_start (hc : isIdentifierStart c = true) : isPunct c = false := by
  rw [← Bool.not_eq_true]
  intro hpunct
  have hall : "~!@#$%^&*-=+|;:,<.>/?'".toList.all (!isIdentifierStart ·) = true := by decide
  have hnone := List.all_eq_true.mp hall c (by simpa [isPunct] using hpunct)
  rw [hc] at hnone
  cases hnone

theorem delimiter_of_start (hc : isIdentifierStart c = true) :
    opens? c = none ∧ closes? c = none := by
  refine ⟨?_, ?_⟩
  · unfold opens?
    split
    all_goals first | rfl | exact absurd hc (by decide)
  · unfold closes?
    split
    all_goals first | rfl | exact absurd hc (by decide)

theorem doc?_eq_none (hc : c ≠ '/') : doc? (c :: cs) = none := by
  have hmark (mark : String) (more : List Char) (hmark : mark.toList = '/' :: more) :
      startsWith mark (c :: cs) = false := startsWith_cons_ne mark '/' more hmark hc
  simp only [doc?, hmark "//!" ['/', '!'] rfl, hmark "/*!" ['*', '!'] rfl,
    hmark "///" ['/', '/'] rfl, hmark "/**" ['*', '*'] rfl]
  rfl

theorem punct?_eq_none (hc : isIdentifierStart c = true) : punct? (c :: cs) = none := by
  have hmark (mark : String) (more : List Char) (hmark : mark.toList = '/' :: more) :
      startsWith mark (c :: cs) = false :=
    startsWith_cons_ne mark '/' more hmark (ne_of_start hc (by decide))
  have hnone : punctChar? (c :: cs) = none := by
    rw [punctChar?, hmark "//" ['/'] rfl, hmark "/*" ['*'] rfl, isPunct_of_start hc]
    rfl
  rw [punct?, hnone]

/-! ## Words at the beginning of a text -/

theorem between_append (w rest : List Char) : between (w ++ rest) rest = w := by
  rw [between, List.length_append, Nat.add_sub_cancel, List.take_left]

theorem plainWord?_append (hw : isIdentifierText w = true) (hrest : Ends rest) :
    plainWord? (w ++ rest) = some rest := by
  cases w with
  | nil => cases hw
  | cons c tail =>
      obtain ⟨hc, htail⟩ := isIdentifierText_cons.mp hw
      have hdrop : (tail ++ rest).dropWhile isIdentifierContinue = rest := by
        rw [List.dropWhile_append_of_pos htail]
        cases rest with
        | nil => rfl
        | cons d rest => rw [List.dropWhile_cons_of_neg (by simp [hrest.stops d rfl])]
      rw [List.cons_append, plainWord?, if_pos hc, hdrop]

/-- What comes behind the first character of a plain word is quiet, and so is what comes behind
    the second one. -/
theorem quiet_behind (htail : ∀ x ∈ cs, isIdentifierContinue x = true) (hrest : Ends rest) :
    Quiet (cs ++ rest) ∧
      ∀ d t, cs ++ rest = d :: t → isIdentifierContinue d = true → Quiet t := by
  refine ⟨quiet_append htail hrest.quiet, ?_⟩
  intro d t heq hd
  cases cs with
  | nil =>
      subst heq
      exact absurd ((hrest.stops d rfl).symm.trans hd) (by decide)
  | cons x xs =>
      obtain ⟨-, rfl⟩ := List.cons.inj heq
      exact quiet_append (fun y hy => htail y (List.mem_cons_of_mem x hy)) hrest.quiet

/-- No literal begins with a plain word that a quiet text follows. -/
theorem literalMarks_plain (ht : Quiet cs)
    (hnext : ∀ d t, cs = d :: t → isIdentifierContinue d = true → Quiet t) :
    literalMarks.any (startsWith · (c :: cs)) = false := by
  have htwo (mark : String) (first second : Char) (more : List Char)
      (hmark : mark.toList = first :: second :: more)
      (hsecond : second = '"' ∨ second = '\'' ∨ second = '#') :
      startsWith mark (c :: cs) = false := startsWith_quiet mark first second more hmark hsecond ht
  -- a mark of three characters, of which the second one is a letter
  have hthree (mark : String) (first third : Char) (hmark : mark.toList = [first, 'r', third])
      (hthird : third = '"' ∨ third = '#') : startsWith mark (c :: cs) = false := by
    cases cs with
    | nil => simp [startsWith, hmark, List.isPrefixOf]
    | cons d t =>
        rw [← Bool.not_eq_true]
        intro hstarts
        rw [startsWith, hmark] at hstarts
        obtain ⟨hd, hthere⟩ := Bool.and_eq_true_iff.mp (Bool.and_eq_true_iff.mp hstarts).2
        obtain rfl : 'r' = d := beq_iff_eq.mp hd
        have hquiet := hnext _ _ rfl (by decide)
        cases t with
        | nil => cases hthere
        | cons e t =>
            obtain rfl : third = e := beq_iff_eq.mp (Bool.and_eq_true_iff.mp hthere).1
            rcases hthird with rfl | rfl
            · exact (hquiet _ rfl).1 rfl
            · exact (hquiet _ rfl).2.2 rfl
  simp only [literalMarks, List.any_cons, List.any_nil, Bool.or_false,
    htwo "r\"" 'r' '"' [] rfl (by decide), htwo "r#\"" 'r' '#' ['"'] rfl (by decide),
    htwo "r##" 'r' '#' ['#'] rfl (by decide), htwo "b\"" 'b' '"' [] rfl (by decide),
    htwo "b'" 'b' '\'' [] rfl (by decide), hthree "br\"" 'b' '"' rfl (by decide),
    hthree "br#" 'b' '#' rfl (by decide), htwo "c\"" 'c' '"' [] rfl (by decide),
    hthree "cr\"" 'c' '"' rfl (by decide), hthree "cr#" 'c' '#' rfl (by decide)]

/-- A word is the first lexeme of a text in which no literal and no comment begins. -/
theorem first?_of_leaf (hc : isIdentifierStart c = true) (hstring : string? (c :: cs) = none)
    (hcharacter : character? (c :: cs) = none)
    (hmarks : literalMarks.any (startsWith · (c :: cs)) = false)
    (hword : anyWord? (c :: cs) = some rest) :
    first? (c :: cs) = some (.word (between (c :: cs) rest), rest) := by
  have hnumber : fraction? (c :: cs) = none ∧ whole? (c :: cs) = none := number_eq_none hc
  obtain ⟨hfraction, hwhole⟩ := hnumber
  obtain ⟨hopens, hcloses⟩ := delimiter_of_start hc
  have hliteral : literal? (c :: cs) = none := by
    rw [literal?, hstring, hcharacter, hfraction, hwhole]
    rfl
  have hmark : startsWith errorMark (c :: cs) = false :=
    startsWith_cons_ne errorMark '(' "/*ERROR*/)".toList rfl (ne_of_start hc (by decide))
  have hword' : word? (c :: cs) = some rest := by
    rw [word?, hmarks]
    exact hword
  have hleaf : leaf? (c :: cs) = some (.word (between (c :: cs) rest), rest) := by
    rw [leaf?, hliteral, punct?_eq_none hc, hword']
    rfl
  rw [first?, doc?_eq_none (ne_of_start hc (by decide)), hmark, hopens, hcloses]
  exact hleaf

theorem first?_plain (hw : isIdentifierText w = true) (hrest : Ends rest) :
    first? (w ++ rest) = some (.word w, rest) := by
  have hplain := plainWord?_append hw hrest
  cases w with
  | nil => cases hw
  | cons c tail =>
      obtain ⟨hc, htail⟩ := isIdentifierText_cons.mp hw
      obtain ⟨hquiet, hnext⟩ := quiet_behind htail hrest
      have hmark : after? "r#" (c :: (tail ++ rest)) = none := by
        rw [after?, startsWith_quiet "r#" 'r' '#' [] rfl (Or.inr (Or.inr rfl)) hquiet]
        rfl
      have hany : anyWord? (c :: (tail ++ rest)) = some rest := by
        rw [anyWord?, hmark]
        exact hplain
      have hfirst := first?_of_leaf hc (string?_eq_none hc hquiet hnext)
        (character?_eq_none hc hquiet) (literalMarks_plain hquiet hnext) hany
      rw [← List.cons_append, between_append] at hfirst
      exact hfirst

theorem first?_marked (hv : isIdentifierText v = true) (hfree : isUnmarkable v = false)
    (hrest : Ends rest) : first? ('r' :: '#' :: v ++ rest) = some (.word ('r' :: '#' :: v), rest) := by
  have hplain := plainWord?_append hv hrest
  have hbetween : between (v ++ rest) rest = v := between_append v rest
  cases v with
  | nil => cases hv
  | cons c tail =>
      obtain ⟨hc, -⟩ := isIdentifierText_cons.mp hv
      have hquote : c ≠ '"' := ne_of_start hc (by decide)
      have hsign : c ≠ '#' := ne_of_start hc (by decide)
      have hafter (mark : String) (first : Char) (more : List Char)
          (hmark : mark.toList = first :: more) (hne : 'r' ≠ first) (cs : List Char) :
          after? mark ('r' :: cs) = none := after?_cons_ne mark first more hmark hne
      have hraw : raw .text ('#' :: c :: (tail ++ rest)) = none := by
        have hmarks : ('#' :: c :: (tail ++ rest)).takeWhile (· == '#') = ['#'] := by
          simp [hsign]
        simp only [raw, hmarks, List.length_singleton, List.drop_one, List.tail_cons]
        split
        · next heq => exact absurd (List.cons.inj heq).1 hquote
        · rfl
      have hstring : string? ('r' :: '#' :: c :: (tail ++ rest)) = none := by
        rw [string?, hafter "\"" '"' [] rfl (by decide)]
        exact hraw
      have hcharacter : character? ('r' :: '#' :: c :: (tail ++ rest)) = none := by
        rw [character?, hafter "b'" 'b' ['\''] rfl (by decide),
          hafter "'" '\'' [] rfl (by decide)]
        rfl
      have hmarks : literalMarks.any (startsWith · ('r' :: '#' :: c :: (tail ++ rest))) = false := by
        simp [literalMarks, startsWith, List.isPrefixOf, hquote.symm, hsign.symm]
      have hany : anyWord? ('r' :: '#' :: c :: (tail ++ rest)) = some rest := by
        have hmarked : after? "r#" ('r' :: '#' :: c :: (tail ++ rest)) =
            some (c :: tail ++ rest) := by
          simp [after?, startsWith, List.isPrefixOf]
        rw [anyWord?, hmarked]
        simp only [hplain, Option.filter_some, hbetween, hfree, Bool.not_false, if_true]
      have hfirst := first?_of_leaf (by decide) hstring hcharacter hmarks hany
      have hwhole : 'r' :: '#' :: c :: (tail ++ rest) = ('r' :: '#' :: c :: tail) ++ rest := rfl
      rw [hwhole, between_append] at hfirst
      exact hfirst

/-- **A word is cut out as it stands**, where the text behind it cannot go on with it. -/
theorem first?_word (hw : IsWord w) (hrest : Ends rest) :
    first? (w ++ rest) = some (.word w, rest) := by
  rcases hw.named with hplain | ⟨v, rfl, hv, hfree⟩
  · exact first?_plain hplain hrest
  · exact first?_marked hv hfree hrest

/-! ## Words that have been cut out -/

theorem plainWord?_eq_some (h : plainWord? cs = some rest) :
    ∃ w, isIdentifierText w = true ∧ cs = w ++ rest := by
  cases cs with
  | nil => cases h
  | cons c tail =>
      rw [plainWord?] at h
      split at h
      · next hc =>
          obtain rfl := Option.some.inj h
          refine ⟨c :: tail.takeWhile isIdentifierContinue, ?_, ?_⟩
          · rw [isIdentifierText_cons]
            exact ⟨hc, List.all_eq_true.mp List.all_takeWhile⟩
          · rw [List.cons_append, List.takeWhile_append_dropWhile]
      · cases h

theorem after?_eq_some {mark : String} (h : after? mark cs = some rest) :
    cs = mark.toList ++ rest := by
  rw [after?] at h
  split at h
  · next hstarts =>
      obtain ⟨t, rfl⟩ := List.isPrefixOf_iff_prefix.mp hstarts
      obtain rfl := Option.some.inj h
      rw [List.drop_left]
  · cases h

theorem anyWord?_eq_some (h : anyWord? cs = some rest) :
    ∃ w, cs = w ++ rest ∧ (isIdentifierText w = true ∨
      ∃ v, w = 'r' :: '#' :: v ∧ isIdentifierText v = true ∧ isUnmarkable v = false) := by
  rw [anyWord?] at h
  cases hmark : after? "r#" cs with
  | none =>
      rw [hmark] at h
      obtain ⟨w, hw, rfl⟩ := plainWord?_eq_some h
      exact ⟨w, rfl, Or.inl hw⟩
  | some inner =>
      rw [hmark] at h
      obtain ⟨hplain, hfree⟩ := Option.filter_eq_some_iff.mp h
      obtain ⟨v, hv, rfl⟩ := plainWord?_eq_some hplain
      rw [between_append] at hfree
      refine ⟨'r' :: '#' :: v, ?_, Or.inr ⟨v, rfl, hv, by simpa using hfree⟩⟩
      simpa using after?_eq_some hmark

theorem punct?_ne_word : punct? cs ≠ some (.word w, rest) := by
  intro h
  rw [punct?] at h
  split at h
  · split at h
    · cases h
    · split at h <;> cases h
    · cases h
    · cases h
  · cases h
  · cases h

/-- **All words that are cut out are words.** -/
theorem isWord_of_first? (h : first? cs = some (.word w, rest))
    (hvisible : ∀ c, cs.head? = some c → isLexicalBlank c = false) : IsWord w := by
  have hleaf : leaf? cs = some (.word w, rest) := by
    unfold first? at h
    split at h
    · cases h
    split at h
    · cases h
    split at h
    · cases h
    split at h
    · cases h
    · cases h
    · exact h
  have hword : ∃ rest', anyWord? cs = some rest' ∧ between cs rest' = w := by
    rw [leaf?] at hleaf
    split at hleaf
    · cases hleaf
    split at hleaf
    · next hpunct => exact absurd (hpunct.trans hleaf) punct?_ne_word
    · obtain ⟨rest', hword, heq⟩ := Option.map_eq_some_iff.mp hleaf
      rw [word?] at hword
      split at hword
      · cases hword
      · exact ⟨rest', hword, by simpa using congrArg Prod.fst heq⟩
  obtain ⟨rest', hany, rfl⟩ := hword
  obtain ⟨w, rfl, hnamed⟩ := anyWord?_eq_some hany
  rw [between_append]
  refine ⟨hnamed, ?_⟩
  intro c hc
  exact hvisible c (by rw [List.head?_append, hc]; rfl)

end ObservableStore.Lexeme
