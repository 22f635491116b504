import ObservableStore.Proofs.Token.Identifier
import ObservableStore.Proofs.Token.Lexed

/-!
# `Proofs.Token.Closes` — texts in which every group closes

`Closes opened cs` says that the text `cs` is made of tokens and closes the groups `opened`, innermost
first, and all groups that it opens itself. Like `Lexed` it is built up from the end of a text.

What stands in front of such a text is of two kinds. Fixed text is judged by running through it once
(`openBehind`, `passes_of_openBehind`). Text that is put in, such as a name, needs something behind it
that ends a word (`Inserted`). `Passes` puts both together.
-/

namespace ObservableStore.Token

open Lexeme
open Text (isIdentifierStart isIdentifierContinue isIdentifierText isLexicalBlank)

variable {cs rest w : List Char} {c : Char} {d : Delimiter} {opened opened' : List Delimiter}

/-- A text that closes the groups `opened`, innermost first, and every group that it opens. -/
def Closes (opened : List Delimiter) (cs : List Char) : Prop :=
  ∃ ls, scan cs = some ls ∧
    ∀ frames done, frames.map Prod.fst = opened → ∃ ts, nest frames done ls = some ts

/-! ## Delimiters and documentation comments -/

/-- A delimiter is neither a blank nor the beginning of a comment. -/
theorem delimiter_visible (hc : (opens? c).isSome ∨ (closes? c).isSome) :
    c ≠ '/' ∧ isLexicalBlank c = false := by
  have hmem : c ∈ ['(', '[', '\x7b', ')', ']', '\x7d'] := by
    simp only [opens?, closes?] at hc
    split at hc <;> split at hc <;> simp_all
  have hall : ['(', '[', '\x7b', ')', ']', '\x7d'].all (fun c => c != '/' && !isLexicalBlank c) := by
    decide
  simpa using List.all_eq_true.mp hall c hmem

/-- Only a slash behind a parenthesis makes it the mark of an error. -/
theorem startsWith_errorMark (hslash : c ≠ '/') (hrest : rest.head? ≠ some '/') :
    startsWith errorMark (c :: rest) = false := by
  by_cases hc : c = '('
  · subst hc
    cases rest with
    | nil => rfl
    | cons e more =>
        have he : ('/' == e) = false := by
          refine beq_eq_false_iff_ne.mpr ?_
          rintro rfl
          exact hrest rfl
        simp [startsWith, errorMark, List.isPrefixOf, he]
  · exact startsWith_cons_ne _ '(' _ rfl hc

theorem scan_delimiter {l : Lexeme} (hslash : c ≠ '/') (hblank : isLexicalBlank c = false)
    (hmark : startsWith errorMark (c :: rest) = false)
    (hl : (match opens? c, closes? c with
      | some d, _ => some (.opening d, rest)
      | _, some d => some (.closing d, rest)
      | none, none => leaf? (c :: rest)) = some (l, rest)) :
    scan (c :: rest) = (scan rest).map (l :: ·) := by
  refine scan_cons ?_ ?_ (Nat.le_refl _)
  · rw [blank?_cons hslash, hblank]
    rfl
  · rw [first?, doc?_eq_none hslash]
    simp only [hmark, Bool.false_eq_true, if_false]
    exact hl

theorem scan_opening (hd : opens? c = some d) (hrest : rest.head? ≠ some '/') :
    scan (c :: rest) = (scan rest).map (.opening d :: ·) := by
  obtain ⟨hslash, hblank⟩ := delimiter_visible (c := c) (Or.inl (by rw [hd]; rfl))
  exact scan_delimiter hslash hblank (startsWith_errorMark hslash hrest) (by rw [hd])

theorem scan_closing (hd : closes? c = some d) :
    scan (c :: rest) = (scan rest).map (.closing d :: ·) := by
  obtain ⟨hslash, hblank⟩ := delimiter_visible (c := c) (Or.inr (by rw [hd]; rfl))
  have hopens : opens? c = none := by
    simp only [closes?] at hd
    split at hd <;> first | rfl | cases hd
  have hparenthesis : c ≠ '(' := by
    rintro rfl
    cases hopens
  refine scan_delimiter hslash hblank (startsWith_cons_ne _ '(' _ rfl hparenthesis) ?_
  rw [hopens, hd]

theorem line_append (h : OneLine cs) : line (cs ++ '\n' :: rest) = (cs, '\n' :: rest) := by
  induction cs with
  | nil => rfl
  | cons c cs ih =>
      obtain ⟨⟨hfeed, hreturn⟩, hcs⟩ := List.forall_mem_cons.mp h
      rw [List.cons_append, line, ih hcs]
      · intro hc
        exact absurd hc hfeed
      · intro more hc
        exact absurd hc hreturn

theorem returnsPaired_of_oneLine (h : OneLine cs) : returnsPaired cs = true := by
  induction cs with
  | nil => rfl
  | cons c cs ih =>
      obtain ⟨⟨-, hreturn⟩, hcs⟩ := List.forall_mem_cons.mp h
      rw [returnsPaired, ih hcs]
      · intro more hc
        exact absurd hc hreturn
      · exact hreturn

/-- What stands behind the slashes of a documentation comment. -/
theorem scan_doc (h : OneLine cs) (hslash : cs.head? ≠ some '/') :
    scan ('/' :: '/' :: '/' :: (cs ++ '\n' :: rest)) =
      (scan ('\n' :: rest)).map (.doc false cs :: ·) := by
  have hthree : startsWith "///" ('/' :: '/' :: '/' :: (cs ++ '\n' :: rest)) = true := rfl
  have hinner : startsWith "//!" ('/' :: '/' :: '/' :: (cs ++ '\n' :: rest)) = false := rfl
  have hfour : startsWith "////" ('/' :: '/' :: '/' :: (cs ++ '\n' :: rest)) = false := by
    cases cs with
    | nil => rfl
    | cons c cs =>
        have hc : ('/' == c) = false := by
          refine beq_eq_false_iff_ne.mpr ?_
          rintro rfl
          exact hslash rfl
        simp [startsWith, List.isPrefixOf, hc]
  have hblock (mark : String) (second : Char) (more : List Char)
      (hmark : mark.toList = '/' :: second :: more) (hsecond : second ≠ '/') :
      startsWith mark ('/' :: '/' :: '/' :: (cs ++ '\n' :: rest)) = false := by
    simp [startsWith, hmark, List.isPrefixOf, hsecond]
  have hvisible : blank? ('/' :: '/' :: '/' :: (cs ++ '\n' :: rest)) = none := by
    simp only [blank?, hthree, hfour, hblock "/**/" '*' _ rfl (by decide),
      hblock "/*" '*' _ rfl (by decide), Bool.not_true, Bool.or_self, Bool.and_false,
      Bool.false_and]
    rfl
  refine scan_cons hvisible ?_ ?_
  · simp only [first?, doc?, hinner, hthree, hfour, hblock "/*!" '*' _ rfl (by decide),
      Bool.false_eq_true, if_false, if_true, List.drop_succ_cons, List.drop_zero, line_append h,
      Option.filter_some, returnsPaired_of_oneLine h]
  · simp only [List.length_cons, List.length_append]
    omega

/-- A comment that documents nothing is skipped. -/
theorem skipBlanks_comment (h : OneLine cs) (hfirst : cs.head? ≠ some '/' ∧ cs.head? ≠ some '!') :
    skipBlanks ('/' :: '/' :: (cs ++ '\n' :: rest)) = skipBlanks ('\n' :: rest) := by
  have hthird (mark : String) (third : Char) (hmark : mark.toList = ['/', '/', third])
      (hne : third ≠ '\n') (hcs : cs.head? ≠ some third) :
      startsWith mark ('/' :: '/' :: (cs ++ '\n' :: rest)) = false := by
    cases cs with
    | nil => simp [startsWith, hmark, List.isPrefixOf, hne]
    | cons c cs =>
        have hc : (third == c) = false := by
          refine beq_eq_false_iff_ne.mpr ?_
          rintro rfl
          exact hcs rfl
        simp [startsWith, hmark, List.isPrefixOf, hc]
  have hskipped : blank? ('/' :: '/' :: (cs ++ '\n' :: rest)) = some ('\n' :: rest) := by
    have htwo : startsWith "//" ('/' :: '/' :: (cs ++ '\n' :: rest)) = true := rfl
    have hcomment : OneLine ('/' :: '/' :: cs) :=
      List.forall_mem_cons.mpr ⟨by decide, List.forall_mem_cons.mpr ⟨by decide, h⟩⟩
    have hline : line ('/' :: '/' :: (cs ++ '\n' :: rest)) = ('/' :: '/' :: cs, '\n' :: rest) :=
      line_append hcomment
    simp only [blank?, htwo, hthird "///" '/' rfl (by decide) hfirst.1,
      hthird "//!" '!' rfl (by decide) hfirst.2, hline, Bool.not_false, Bool.true_or, Bool.and_self,
      if_true]
  have hless : ('\n' :: rest).length < ('/' :: '/' :: (cs ++ '\n' :: rest)).length := by
    simp only [List.length_cons, List.length_append]
    omega
  rw [skipBlanks, exhaust, hskipped]
  exact if_pos hless

/-! ## Building up a text -/

namespace Closes

theorem nil : Closes [] [] := by
  refine ⟨[], ?_, fun frames done hframes => ?_⟩
  · rw [scan, skipBlanks_of_blank? rfl, scanFrom]
  · obtain rfl := List.map_eq_nil_iff.mp hframes
    exact ⟨done.reverse, rfl⟩

theorem blank (hslash : c ≠ '/') (hblank : isLexicalBlank c = true) (h : Closes opened rest) :
    Closes opened (c :: rest) := by
  obtain ⟨ls, hscan, hnest⟩ := h
  refine ⟨ls, ?_, hnest⟩
  rw [scan, skipBlanks_cons hslash hblank]
  exact hscan

theorem word (hw : IsWord w) (hrest : Ends rest) (h : Closes opened rest) :
    Closes opened (w ++ rest) := by
  obtain ⟨ls, hscan, hnest⟩ := h
  refine ⟨.word w :: ls, ?_, fun frames done hframes => ?_⟩
  · rw [scan_word hw hrest, hscan]
    rfl
  · rw [nest]
    exact hnest frames _ hframes

theorem punct (hc : isPunct c = true) (hslash : c ≠ '/') (hquote : c ≠ '\'')
    (h : Closes opened rest) : Closes opened (c :: rest) := by
  obtain ⟨ls, hscan, hnest⟩ := h
  refine ⟨.punct c (punctChar? rest).isSome :: ls, ?_, fun frames done hframes => ?_⟩
  · rw [scan_punct hc hslash hquote, hscan]
    rfl
  · rw [nest]
    exact hnest frames _ hframes

theorem opening (hd : opens? c = some d) (hrest : rest.head? ≠ some '/')
    (h : Closes (d :: opened) rest) : Closes opened (c :: rest) := by
  obtain ⟨ls, hscan, hnest⟩ := h
  refine ⟨.opening d :: ls, ?_, fun frames done hframes => ?_⟩
  · rw [scan_opening hd hrest, hscan]
    rfl
  · rw [nest]
    exact hnest _ _ (congrArg (d :: ·) hframes)

theorem closing (hd : closes? c = some d) (h : Closes opened rest) :
    Closes (d :: opened) (c :: rest) := by
  obtain ⟨ls, hscan, hnest⟩ := h
  refine ⟨.closing d :: ls, ?_, fun frames done hframes => ?_⟩
  · rw [scan_closing hd, hscan]
    rfl
  · cases frames with
    | nil => cases hframes
    | cons frame frames =>
        obtain ⟨hd', hframes⟩ := List.cons.inj hframes
        rw [nest, if_pos hd'.symm]
        exact hnest frames _ hframes

theorem doc (hline : OneLine cs) (hslash : cs.head? ≠ some '/') (h : Closes opened ('\n' :: rest)) :
    Closes opened ('/' :: '/' :: '/' :: (cs ++ '\n' :: rest)) := by
  obtain ⟨ls, hscan, hnest⟩ := h
  refine ⟨.doc false cs :: ls, ?_, fun frames done hframes => ?_⟩
  · rw [scan_doc hline hslash, hscan]
    rfl
  · rw [nest]
    exact hnest frames _ hframes

theorem comment (hline : OneLine cs) (hfirst : cs.head? ≠ some '/' ∧ cs.head? ≠ some '!')
    (h : Closes opened ('\n' :: rest)) : Closes opened ('/' :: '/' :: (cs ++ '\n' :: rest)) := by
  obtain ⟨ls, hscan, hnest⟩ := h
  refine ⟨ls, ?_, hnest⟩
  rw [scan, skipBlanks_comment hline hfirst]
  exact hscan

/-- **A text that closes every group has tokens.** -/
theorem ofChars (h : Closes [] cs) (hmark : cs.head? ≠ some byteOrderMark) :
    ∃ ts, Token.ofChars cs = some ts := by
  obtain ⟨ls, hscan, hnest⟩ := h
  obtain ⟨ts, hts⟩ := hnest [] [] rfl
  refine ⟨ts, ?_⟩
  rw [Token.ofChars, dropMark_of_head? hmark, hscan]
  exact hts

end Closes

/-! ## Fixed text -/

/-- What a blank, a punctuation character or a delimiter of fixed text does to the open groups. -/
def openBehindMark (opened : List Delimiter) (c : Char) : Option (List Delimiter) :=
  if c ∈ [' ', ':', '<', '>', ',', ';', '.', '=', '&', '-'] then some opened
  else match opens? c, closes? c, opened with
    | some d, _, _ => some (d :: opened)
    | none, some d, d' :: opened => if d = d' then some opened else none
    | _, _, _ => none

/-- A letter of fixed text. -/
def isLetter (c : Char) : Bool := c.isAlpha || c == '_'

/-- Where a run through fixed text stands. -/
inductive Position where
  | between
  | inWord
  /-- Behind text that was put in, where no word can go on. -/
  | behindInserted
deriving DecidableEq

/-- The groups that are open behind a fixed text, which must not end inside a word. -/
def openBehind : Position → List Delimiter → List Char → Option (List Delimiter)
  | .between, opened, [] => some opened
  | _, _, [] => none
  | p, opened, c :: cs =>
    if isLetter c then if p = .behindInserted then none else openBehind .inWord opened cs
    else (openBehindMark opened c).bind fun opened => openBehind .between opened cs

theorem isWord_of_letters (hw : w ≠ []) (hletters : ∀ c ∈ w, isLetter c = true) : IsWord w := by
  have hstart : ∀ c ∈ w, isIdentifierStart c = true := by
    intro c hc
    have hletter : (decide ('A'.val ≤ c.val ∧ c.val ≤ 'Z'.val) ||
        (decide ('a'.val ≤ c.val) && decide (c.val ≤ 'z'.val)) || c == '_') = true := hletters c hc
    have hnear : c.toNat < 128 := by
      simp only [Bool.or_eq_true, Bool.and_eq_true, decide_eq_true_eq, beq_iff_eq,
        UInt32.le_iff_toNat_le] at hletter
      rcases hletter with (⟨-, h⟩ | ⟨-, h⟩) | rfl
      · exact Nat.lt_of_le_of_lt h (by decide)
      · exact Nat.lt_of_le_of_lt h (by decide)
      · decide
    rw [isIdentifierStart, if_pos hnear]
    exact hletter
  refine isWord_iff.mpr (Or.inl ?_)
  cases w with
  | nil => exact absurd rfl hw
  | cons c tail =>
      refine isIdentifierText_cons.mpr ⟨hstart c List.mem_cons_self, fun x hx => ?_⟩
      exact Text.isIdentifierContinue_of_start (hstart x (List.mem_cons_of_mem _ hx))

section marks

variable {outer : List Delimiter}

theorem Closes.mark (hc : openBehindMark opened c = some opened') (hrest : rest.head? ≠ some '/')
    (h : Closes (opened' ++ outer) rest) : Closes (opened ++ outer) (c :: rest) := by
  unfold openBehindMark at hc
  split at hc
  · next hmem =>
      obtain rfl := Option.some.inj hc
      simp only [List.mem_cons, List.not_mem_nil, or_false] at hmem
      rcases hmem with rfl | rfl | rfl | rfl | rfl | rfl | rfl | rfl | rfl | rfl
      · exact h.blank (by decide) (by decide)
      all_goals exact h.punct (by decide) (by decide) (by decide)
  · split at hc
    · next hd =>
        obtain rfl := Option.some.inj hc
        exact Closes.opening hd hrest h
    · next d d' opened _ hd =>
        split at hc
        · next heq =>
            obtain rfl := Option.some.inj hc
            subst heq
            exact Closes.closing hd h
        · cases hc
    · cases hc

/-- All characters of fixed text but letters. -/
def marks : List Char :=
  [' ', ':', '<', '>', ',', ';', '.', '=', '&', '-', '(', '[', '\x7b', ')', ']', '\x7d']

theorem mem_marks (hc : openBehindMark opened c = some opened') : c ∈ marks := by
  unfold openBehindMark at hc
  split at hc
  · next hmem => exact List.mem_append_left ['(', '[', '\x7b', ')', ']', '\x7d'] hmem
  · split at hc
    · next hd =>
        simp only [opens?] at hd
        split at hd <;> simp_all [marks]
    · next hd =>
        simp only [closes?] at hd
        split at hd <;> simp_all [marks]
    · cases hc

theorem ends_of_mark (hc : openBehindMark opened c = some opened') (rest : List Char) :
    Ends (c :: rest) := by
  have hall : marks.all (fun c => !isIdentifierContinue c && c != '"' && c != '\'' && c != '#') := by
    decide
  have hmark := List.all_eq_true.mp hall c (mem_marks hc)
  simp only [Bool.and_eq_true, Bool.not_eq_true', bne_iff_ne, and_assoc] at hmark
  obtain ⟨hstop, hquiet⟩ := hmark
  constructor
  · intro e he
    obtain rfl := Option.some.inj he
    exact hstop
  · intro e he
    obtain rfl := Option.some.inj he
    exact hquiet

/-- Fixed text does not begin with a slash. -/
theorem head?_of_openBehind {p : Position} (h : openBehind p opened cs = some opened')
    (hrest : rest.head? ≠ some '/') : (cs ++ rest).head? ≠ some '/' := by
  cases cs with
  | nil => exact hrest
  | cons c cs =>
      intro hslash
      obtain rfl : c = '/' := Option.some.inj hslash
      have hmark : openBehindMark opened '/' = none := by
        cases opened <;> rfl
      have hletter : isLetter '/' = false := by decide
      rw [openBehind, hletter, hmark] at h
      · cases h

/-- Fixed text stands on one line. -/
theorem oneLine_of_openBehind {p : Position} (h : openBehind p opened cs = some opened') :
    OneLine cs := by
  induction cs generalizing p opened with
  | nil => exact fun c hc => by cases hc
  | cons c cs ih =>
      rw [openBehind] at h
      split at h
      · next hletter =>
          have hc : c ≠ '\n' ∧ c ≠ '\r' := by
            constructor <;> rintro rfl <;> exact absurd hletter (by decide)
          split at h
          · cases h
          · exact List.forall_mem_cons.mpr ⟨hc, ih h⟩
      · obtain ⟨between, hmark, hnext⟩ := Option.bind_eq_some_iff.mp h
        have hall : OneLine marks := by decide
        exact List.forall_mem_cons.mpr ⟨hall c (mem_marks hmark), ih hnext⟩

/-- What a run through fixed text shows, for each position that it can begin at. -/
theorem closes_of_openBehind {p : Position} (h : openBehind p opened cs = some opened')
    (hrest : rest.head? ≠ some '/') (hcloses : Closes (opened' ++ outer) rest) :
    match p with
    | .between => Closes (opened ++ outer) (cs ++ rest)
    | .inWord => ∀ w, w ≠ [] → (∀ c ∈ w, isLetter c = true) →
        Closes (opened ++ outer) (w ++ (cs ++ rest))
    | .behindInserted => Closes (opened ++ outer) (cs ++ rest) ∧ Ends (cs ++ rest) := by
  induction cs generalizing p opened with
  | nil =>
      cases p with
      | between =>
          obtain rfl := Option.some.inj h
          exact hcloses
      | inWord => cases h
      | behindInserted => cases h
  | cons c cs ih =>
      rw [openBehind] at h
      split at h
      · next hletter =>
          have hletter' : ∀ x ∈ [c], isLetter x = true := by simpa using hletter
          split at h
          · cases h
          · next hp =>
              have hword := ih h
              cases p with
              | between => exact hword [c] (List.cons_ne_nil _ _) hletter'
              | inWord =>
                  intro w _ hletters
                  have hlonger := hword (w ++ [c]) (by simp)
                    (List.forall_mem_append.mpr ⟨hletters, hletter'⟩)
                  rwa [List.append_assoc] at hlonger
              | behindInserted => exact absurd rfl hp
      · obtain ⟨between, hmark, hnext⟩ := Option.bind_eq_some_iff.mp h
        have hcs : Closes (opened ++ outer) (c :: (cs ++ rest)) :=
          Closes.mark hmark (head?_of_openBehind hnext hrest) (ih hnext)
        have hends := ends_of_mark hmark (cs ++ rest)
        cases p with
        | between => exact hcs
        | inWord => exact fun w hw hletters => hcs.word (isWord_of_letters hw hletters) hends
        | behindInserted => exact ⟨hcs, hends⟩

end marks

/-! ## Text that is put in -/

/-- A text that stands between lexemes and turns the open groups `opened` into `opened'`. -/
structure Passes (opened opened' : List Delimiter) (t : String) : Prop where
  oneLine : OneLine t.toList
  closes : ∀ outer rest, rest.head? ≠ some '/' → Closes (opened' ++ outer) rest →
    Closes (opened ++ outer) (t.toList ++ rest)

/-- A text that leaves the open groups as they are, given that a word ends behind it. -/
structure Inserted (t : String) : Prop where
  oneLine : OneLine t.toList
  first : ∃ c cs, t.toList = c :: cs ∧ c ≠ '/'
  closes : ∀ opened rest, Ends rest → Closes opened rest → Closes opened (t.toList ++ rest)

variable {s t u : String}

theorem Inserted.head? (hs : Inserted s) (rest : List Char) :
    (s.toList ++ rest).head? ≠ some '/' := by
  obtain ⟨c, cs, hcs, hc⟩ := hs.first
  rw [hcs]
  exact fun h => hc (Option.some.inj h)

/-- Fixed text, given the groups that are open behind it. -/
theorem Passes.fixed (opened' : List Delimiter)
    (h : openBehind .between opened t.toList = some opened') : Passes opened opened' t :=
  ⟨oneLine_of_openBehind h, fun _ _ hrest hcloses => closes_of_openBehind h hrest hcloses⟩

/-- Fixed text behind another text, given the groups that are open behind it. -/
theorem Passes.followed (ht : Passes opened opened' t) (opened'' : List Delimiter)
    (hu : openBehind .between opened' u.toList = some opened'') : Passes opened opened'' (t ++ u) := by
  refine ⟨?_, fun outer rest hrest hcloses => ?_⟩
  · rw [String.toList_append]
    exact oneLine_append.mpr ⟨ht.oneLine, oneLine_of_openBehind hu⟩
  · rw [String.toList_append, List.append_assoc]
    exact ht.closes outer _ (head?_of_openBehind hu hrest) (closes_of_openBehind hu hrest hcloses)

/-- Text that is put in between fixed texts, given the groups that are open behind the last one. -/
theorem Passes.put (ht : Passes opened opened' t) (hs : Inserted s) (opened'' : List Delimiter)
    (hu : openBehind .behindInserted opened' u.toList = some opened'') :
    Passes opened opened'' (t ++ s ++ u) := by
  refine ⟨?_, fun outer rest hrest hcloses => ?_⟩
  · rw [String.toList_append, String.toList_append]
    exact oneLine_append.mpr ⟨oneLine_append.mpr ⟨ht.oneLine, hs.oneLine⟩, oneLine_of_openBehind hu⟩
  · obtain ⟨hbehind, hends⟩ := closes_of_openBehind hu hrest hcloses
    rw [String.toList_append, String.toList_append, List.append_assoc, List.append_assoc]
    exact ht.closes outer _ (hs.head? _) (hs.closes _ _ hends hbehind)

theorem Inserted.word (hs : IsWord s.toList) : Inserted s := by
  refine ⟨hs.oneLine, ?_, fun opened rest hrest hcloses => hcloses.word hs hrest⟩
  obtain ⟨c, tail, hcs, hc⟩ := hs.cons
  exact ⟨c, tail, hcs, ne_of_start hc (by decide)⟩

/-- Fixed text between two texts that are put in. -/
theorem Inserted.joined (hs : Inserted s) (hu : openBehind .behindInserted [] u.toList = some [])
    (ht : Inserted t) : Inserted (s ++ u ++ t) := by
  refine ⟨?_, ?_, fun opened rest hrest hcloses => ?_⟩
  · rw [String.toList_append, String.toList_append]
    exact oneLine_append.mpr ⟨oneLine_append.mpr ⟨hs.oneLine, oneLine_of_openBehind hu⟩, ht.oneLine⟩
  · obtain ⟨c, cs, hcs, hc⟩ := hs.first
    exact ⟨c, cs ++ u.toList ++ t.toList, by simp [hcs], hc⟩
  · have ht' : Closes ([] ++ opened) (t.toList ++ rest) := ht.closes _ _ hrest hcloses
    obtain ⟨hbehind, hends⟩ := closes_of_openBehind hu (ht.head? rest) ht'
    rw [String.toList_append, String.toList_append, List.append_assoc, List.append_assoc]
    exact hs.closes _ _ hends hbehind

/-- Fixed text in front of a text that is put in. -/
theorem Inserted.behind (hne : t.toList ≠ []) (ht : openBehind .between [] t.toList = some [])
    (hs : Inserted s) : Inserted (t ++ s) := by
  obtain ⟨c, cs, hcs⟩ := List.exists_cons_of_ne_nil hne
  refine ⟨?_, ⟨c, cs ++ s.toList, by rw [String.toList_append, hcs]; rfl, ?_⟩, ?_⟩
  · rw [String.toList_append]
    exact oneLine_append.mpr ⟨oneLine_of_openBehind ht, hs.oneLine⟩
  · rintro rfl
    have hslash : (t.toList ++ []).head? ≠ some '/' := head?_of_openBehind ht (by simp)
    rw [hcs] at hslash
    exact hslash rfl
  · intro opened rest hrest hcloses
    rw [String.toList_append, List.append_assoc]
    exact (Passes.fixed [] ht).closes opened _ (hs.head? rest) (hs.closes _ _ hrest hcloses)

end ObservableStore.Token
