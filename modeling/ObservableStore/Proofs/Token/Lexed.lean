import Mathlib.Data.List.Basic
import ObservableStore.Proofs.Token.Word

/-!
# `Proofs.Token.Lexed` — texts and their tokens

`Lexed cs ts` says that `ts` are the tokens of the text `cs`, in which no group stands open. It is
built up from the end of a text, so that a word is judged with what really follows it
(`Lexed.word`, `Lexed.punct`, `Lexed.blank`). In the other direction all words among the tokens of a
text are words as source text has them (`spelled_of_ofChars`).
-/

namespace ObservableStore

namespace Lexeme

open Text (isIdentifierStart isIdentifierContinue isLexicalBlank)

variable {w cs rest tail : List Char} {c : Char}

/-! ## Blanks -/

theorem length_exhaust (step : List Char → Option (List Char)) (cs : List Char) :
    (exhaust step cs).length ≤ cs.length := by
  fun_induction exhaust step cs with
  | case1 cs _ => exact Nat.le_refl _
  | case2 cs rest _ hless ih => exact Nat.le_trans ih (Nat.le_of_lt hless)
  | case3 cs rest _ _ => exact Nat.le_refl _

theorem length_skipBlanks (cs : List Char) : (skipBlanks cs).length ≤ cs.length :=
  length_exhaust blank? cs

/-- A character that begins no comment is skipped just when it is a blank. -/
theorem blank?_cons (hslash : c ≠ '/') :
    blank? (c :: cs) = if isLexicalBlank c then some cs else none := by
  have hmark (mark : String) (more : List Char) (hmark : mark.toList = '/' :: more) :
      startsWith mark (c :: cs) = false := startsWith_cons_ne mark '/' more hmark hslash
  simp only [blank?, hmark "//" ['/'] rfl, hmark "/**/" ['*', '*', '/'] rfl, hmark "/*" ['*'] rfl,
    Bool.false_and, if_neg Bool.false_ne_true]

theorem skipBlanks_of_blank? (h : blank? cs = none) : skipBlanks cs = cs := by
  rw [skipBlanks, exhaust, h]

/-- A blank is skipped. -/
theorem skipBlanks_cons (hslash : c ≠ '/') (hblank : isLexicalBlank c = true) :
    skipBlanks (c :: cs) = skipBlanks cs := by
  have hskipped : blank? (c :: cs) = some cs := by
    rw [blank?_cons hslash, if_pos hblank]
  have hless : cs.length < (c :: cs).length := Nat.lt_succ_self _
  rw [skipBlanks, exhaust, hskipped]
  exact if_pos hless

/-- What is left behind blanks does not begin with one. -/
theorem visible_skipBlanks (h : skipBlanks cs = c :: tail) : isLexicalBlank c = false := by
  unfold skipBlanks at h
  -- a blank would have been skipped, which leaves less to read
  have hstuck : ∀ rest, blank? (c :: tail) = some rest → ¬ rest.length < (c :: tail).length := by
    fun_induction exhaust blank? cs with
    | case1 cs hnone =>
        subst h
        intro rest hrest
        rw [hnone] at hrest
        cases hrest
    | case2 cs rest _ _ ih => exact ih h
    | case3 cs rest hsome hnot =>
        subst h
        intro rest' hrest'
        rw [hsome] at hrest'
        obtain rfl := Option.some.inj hrest'
        exact hnot
  by_contra hblank
  have hslash : c ≠ '/' := by
    rintro rfl
    exact hblank (by decide)
  have hskipped : blank? (c :: tail) = some tail := by
    rw [blank?_cons hslash, if_pos (by simpa using hblank)]
  exact hstuck tail hskipped (Nat.lt_succ_self _)

/-! ## Scanning -/

theorem scan_cons {l : Lexeme} (hvisible : blank? (c :: tail) = none)
    (hfirst : first? (c :: tail) = some (l, rest)) (hless : rest.length ≤ tail.length) :
    scan (c :: tail) = (scan rest).map (l :: ·) := by
  rw [scan, skipBlanks_of_blank? hvisible, scanFrom, hfirst]
  exact if_pos (Nat.le_trans (length_skipBlanks rest) hless)

/-- A word begins with a character that can begin an identifier. -/
theorem IsWord.cons (hw : IsWord w) : ∃ c tail, w = c :: tail ∧ isIdentifierStart c = true := by
  rcases hw.named with hplain | ⟨v, rfl, -, -⟩
  · cases w with
    | nil => cases hplain
    | cons c tail => exact ⟨c, tail, rfl, (isIdentifierText_cons.mp hplain).1⟩
  · exact ⟨'r', '#' :: v, rfl, by decide⟩

theorem scan_word (hw : IsWord w) (hrest : Ends rest) :
    scan (w ++ rest) = (scan rest).map (.word w :: ·) := by
  obtain ⟨c, tail, rfl, hc⟩ := hw.cons
  refine scan_cons ?_ (first?_word hw hrest) ?_
  · rw [blank?_cons (ne_of_start hc (by decide)), hw.visible c rfl]
    rfl
  · show rest.length ≤ (tail ++ rest).length
    rw [List.length_append]
    exact Nat.le_add_left _ _

/-- Punctuation other than a slash and a single quote is cut out wherever it stands. -/
theorem scan_punct (hc : isPunct c = true) (hslash : c ≠ '/') (hquote : c ≠ '\'')
    (rest : List Char) :
    scan (c :: rest) = (scan rest).map (.punct c (punctChar? rest).isSome :: ·) := by
  have hmem : c ∈ "~!@#$%^&*-=+|;:,<.>?".toList := by
    simpa [isPunct, hslash, hquote] using hc
  have hblank : isLexicalBlank c = false := by
    have hall : "~!@#$%^&*-=+|;:,<.>?".toList.all (!isLexicalBlank ·) = true := by decide
    exact Bool.not_eq_eq_eq_not.mp (List.all_eq_true.mp hall c hmem)
  refine scan_cons ?_ ?_ (Nat.le_refl _)
  · rw [blank?_cons hslash, hblank]
    rfl
  · rw [first?, doc?_eq_none hslash]
    simp at hmem
    rcases hmem with rfl | rfl | rfl | rfl | rfl | rfl | rfl | rfl | rfl | rfl | rfl | rfl | rfl |
      rfl | rfl | rfl | rfl | rfl | rfl | rfl <;> rfl

/-- The punctuation of types that are paths. -/
def typePunctuation : List Char := [':', '<', '>', ',']

theorem isPunct_of_typePunctuation (hc : c ∈ typePunctuation) :
    isPunct c = true ∧ c ≠ '/' ∧ c ≠ '\'' := by
  have hall : typePunctuation.all (fun c => isPunct c && c != '/' && c != '\'') = true := by decide
  simpa [and_assoc] using List.all_eq_true.mp hall c hc

/-- All words of a scanned text are words. -/
theorem isWord_of_scanFrom {ls : List Lexeme} (h : scanFrom cs = some ls)
    (hvisible : ∀ c, cs.head? = some c → isLexicalBlank c = false) (hw : .word w ∈ ls) :
    IsWord w := by
  fun_induction scanFrom cs generalizing ls with
  | case1 =>
      obtain rfl := Option.some.inj h
      cases hw
  | case2 c tail hnone => cases h
  | case3 c tail l rest hfirst hless ih =>
      obtain ⟨others, hothers, rfl⟩ := Option.map_eq_some_iff.mp h
      rcases List.mem_cons.mp hw with rfl | hmem
      · exact isWord_of_first? hfirst hvisible
      · refine ih hothers ?_ hmem
        intro d hd
        cases hrest : skipBlanks rest with
        | nil =>
            rw [hrest] at hd
            cases hd
        | cons e more =>
            rw [hrest] at hd
            obtain rfl := Option.some.inj hd
            exact visible_skipBlanks hrest
  | case4 c tail l rest hfirst hmore => cases h

theorem isWord_of_scan {ls : List Lexeme} (h : scan cs = some ls) (hw : .word w ∈ ls) :
    IsWord w := by
  refine isWord_of_scanFrom h ?_ hw
  intro c hc
  cases hrest : skipBlanks cs with
  | nil =>
      rw [hrest] at hc
      cases hc
  | cons d tail =>
      rw [hrest] at hc
      obtain rfl := Option.some.inj hc
      exact visible_skipBlanks hrest

end Lexeme

namespace Token

open Lexeme

variable {cs rest w : List Char} {ts : List Token} {c : Char}

/-! ## Words among tokens -/

mutual

/-- The words in a token. -/
def wordsOf : Token → List String
  | .group _ body => wordsOfAll body
  | .word s => [s]
  | .punct _ _ => []
  | .literal _ => []

/-- The words in a list of tokens, also in groups. -/
def wordsOfAll : List Token → List String
  | [] => []
  | t :: ts => wordsOf t ++ wordsOfAll ts

end

theorem wordsOfAll_append (ts us : List Token) :
    wordsOfAll (ts ++ us) = wordsOfAll ts ++ wordsOfAll us := by
  induction ts with
  | nil => rfl
  | cons t ts ih => rw [List.cons_append, wordsOfAll, wordsOfAll, ih, List.append_assoc]

/-- Every token counts for at least one. -/
theorem length_le_sizeAll (ts : List Token) : ts.length ≤ sizeAll ts := by
  induction ts with
  | nil => exact Nat.le_refl _
  | cons t ts ih =>
      have ht : 1 ≤ t.size := by
        cases t with
        | group d body =>
            rw [size]
            omega
        | _ => exact Nat.le_refl _
      rw [List.length_cons, sizeAll]
      omega

/-- All words among the tokens are words as source text has them. -/
def Spelled (ts : List Token) : Prop := ∀ s ∈ wordsOfAll ts, IsWord s.toList

theorem spelled_nil : Spelled [] := by
  intro s hs
  cases hs

theorem spelled_cons {t : Token} :
    Spelled (t :: ts) ↔ (∀ s ∈ wordsOf t, IsWord s.toList) ∧ Spelled ts := by
  simp only [Spelled, wordsOfAll, List.mem_append, or_imp, forall_and]

theorem spelled_append {us : List Token} : Spelled (ts ++ us) ↔ Spelled ts ∧ Spelled us := by
  simp only [Spelled, wordsOfAll_append, List.mem_append, or_imp, forall_and]

theorem spelled_reverse : Spelled ts.reverse ↔ Spelled ts := by
  induction ts with
  | nil => exact Iff.rfl
  | cons t ts ih =>
      rw [List.reverse_cons, spelled_append, ih, spelled_cons, spelled_cons, and_comm]
      exact and_congr_left fun _ => and_iff_left spelled_nil

theorem spelled_ofDoc (inner : Bool) (text : List Char) : Spelled (ofDoc inner text) := by
  have hdoc : IsWord "doc".toList := by
    refine ⟨Or.inl (by decide), fun c hc => ?_⟩
    obtain rfl := Option.some.inj hc
    decide
  intro s hs
  obtain rfl : s = "doc" := by
    cases inner <;> simpa [ofDoc, wordsOfAll, wordsOf] using hs
  exact hdoc

/-- Nesting keeps the words. -/
theorem spelled_nest {frames : List (Delimiter × List Token)} {done : List Token}
    {ls : List Lexeme} (h : nest frames done ls = some ts) (hdone : Spelled done)
    (hframes : ∀ f ∈ frames, Spelled f.2) (hls : ∀ w, .word w ∈ ls → IsWord w) : Spelled ts := by
  -- one case for each lexeme, with the open groups and the tokens before it
  fun_induction nest frames done ls with
  | case1 done =>
      obtain rfl := Option.some.inj h
      exact spelled_reverse.mpr hdone
  | case2 => cases h
  | case3 frames done d rest ih =>
      refine ih h spelled_nil ?_ fun w hw => hls w (List.mem_cons_of_mem _ hw)
      intro f hf
      rcases List.mem_cons.mp hf with rfl | hf
      · exact hdone
      · exact hframes f hf
  | case4 => cases h
  | case5 outer frames done d rest ih =>
      refine ih h ?_ (fun f hf => hframes f (List.mem_cons_of_mem _ hf))
        fun w hw => hls w (List.mem_cons_of_mem _ hw)
      exact spelled_cons.mpr ⟨spelled_reverse.mpr hdone, hframes _ List.mem_cons_self⟩
  | case6 => cases h
  | case7 frames done w rest ih =>
      refine ih h ?_ hframes fun w hw => hls w (List.mem_cons_of_mem _ hw)
      refine spelled_cons.mpr ⟨?_, hdone⟩
      intro s hs
      obtain rfl := List.mem_singleton.mp hs
      rw [String.toList_ofList]
      exact hls w List.mem_cons_self
  | case8 frames done c joint rest ih =>
      refine ih h ?_ hframes fun w hw => hls w (List.mem_cons_of_mem _ hw)
      exact spelled_cons.mpr ⟨fun s hs => (by cases hs), hdone⟩
  | case9 frames done l rest ih =>
      refine ih h ?_ hframes fun w hw => hls w (List.mem_cons_of_mem _ hw)
      exact spelled_cons.mpr ⟨fun s hs => (by cases hs), hdone⟩
  | case10 frames done inner text rest ih =>
      refine ih h ?_ hframes fun w hw => hls w (List.mem_cons_of_mem _ hw)
      exact spelled_append.mpr ⟨spelled_ofDoc inner text, hdone⟩

/-- **All words of a text are words**, in groups and outside of them. -/
theorem spelled_of_ofChars (h : ofChars cs = some ts) : Spelled ts := by
  obtain ⟨ls, hscan, hnest⟩ := Option.bind_eq_some_iff.mp h
  exact spelled_nest hnest spelled_nil (fun f hf => by cases hf) fun w hw => isWord_of_scan hscan hw

/-! ## Tokens of a text -/

theorem dropMark_of_head? (hmark : cs.head? ≠ some byteOrderMark) : dropMark cs = cs := by
  cases cs with
  | nil => rfl
  | cons c rest => exact if_neg fun hc => hmark (congrArg some hc)

/-- The tokens of a text in which no group stands open, wherever it stands. -/
def Lexed (cs : List Char) (ts : List Token) : Prop :=
  ∃ ls, scan cs = some ls ∧ ∀ done, nest [] done ls = some (done.reverse ++ ts)

namespace Lexed

theorem nil : Lexed [] [] := by
  refine ⟨[], ?_, fun done => ?_⟩
  · rw [scan, skipBlanks_of_blank? rfl, scanFrom]
  · rw [nest, List.append_nil]

theorem blank (h : Lexed rest ts) : Lexed (' ' :: rest) ts := by
  obtain ⟨ls, hscan, hnest⟩ := h
  refine ⟨ls, ?_, hnest⟩
  rw [scan, skipBlanks_cons (by decide) (by decide)]
  exact hscan

theorem word (hw : IsWord w) (hrest : Ends rest) (h : Lexed rest ts) :
    Lexed (w ++ rest) (.word (String.ofList w) :: ts) := by
  obtain ⟨ls, hscan, hnest⟩ := h
  refine ⟨.word w :: ls, ?_, fun done => ?_⟩
  · rw [scan_word hw hrest, hscan]
    rfl
  · rw [nest, hnest, List.reverse_cons, List.append_assoc]
    rfl

theorem punct (hc : c ∈ typePunctuation) (h : Lexed rest ts) :
    Lexed (c :: rest) (.punct c (punctChar? rest).isSome :: ts) := by
  obtain ⟨ls, hscan, hnest⟩ := h
  refine ⟨.punct c (punctChar? rest).isSome :: ls, ?_, fun done => ?_⟩
  · obtain ⟨hpunct, hslash, hquote⟩ := isPunct_of_typePunctuation hc
    rw [scan_punct hpunct hslash hquote, hscan]
    rfl
  · rw [nest, hnest, List.reverse_cons, List.append_assoc]
    rfl

/-- A text without an encoding mark has the tokens that it has anywhere. -/
theorem ofChars (h : Lexed cs ts) (hmark : cs.head? ≠ some byteOrderMark) :
    Token.ofChars cs = some ts := by
  obtain ⟨ls, hscan, hnest⟩ := h
  rw [Token.ofChars, dropMark_of_head? hmark, hscan]
  exact hnest []

end Lexed

end Token

end ObservableStore
