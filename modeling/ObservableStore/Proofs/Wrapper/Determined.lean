import ObservableStore.Proofs.Wrapper.MethodNames
import ObservableStore.Proofs.Wrapper.Tokens

/-!
# `Proofs.Wrapper.Determined` — what can be read off the text of a wrapper

The text of a wrapper is read line by line. In the block that begins with `impl` and the wrapper's name
stand two async methods for every field (`asyncMethodsOf_emit`), in the lines that begin them. These
lines, the one that names the root and the one that begins the type determine the root, the modifier,
the fields and their types as they are written (`emit_determines`): nothing that is put into them can
be taken for what stands around it.
-/

namespace ObservableStore

open Lexeme (startsWith)

/-! ## Reading lines -/

/-- The lines in the block that gives a type methods, up to the line that closes it. -/
def implLines (type : String) (ls : List String) : List String :=
  ((ls.dropWhile (· != "impl " ++ type ++ " \x7b")).drop 1).takeWhile (· != "\x7d")

/-- The name of the async method that begins in a line, for everyone to see or not. -/
def asyncMethodIn? (l : String) : Option String :=
  let words := l.toList.dropWhile (· == ' ')
  (Code.nameBehind? "pub async fn ".toList words).or (Code.nameBehind? "async fn ".toList words)

/-- The names of the async methods that a text gives a type, in order. -/
def asyncMethodsOf (type : String) (source : String) : List String :=
  (implLines type (linesOf source)).filterMap asyncMethodIn?

/-- The lines that begin async methods of a type, in order. -/
def signaturesOf (type : String) (ls : List String) : List String :=
  (implLines type ls).filter fun l => (asyncMethodIn? l).isSome

/-- The line that names the root. -/
def titleOf (ls : List String) : Option String :=
  ls.find? fun l => startsWith "/// Observable store for [`" l.toList

/-- The first line that opens a block. -/
def openingOf (ls : List String) : Option String :=
  ls.find? fun l => l.toList.getLast? == some '\x7b'

namespace Code

theorem indent_zero (t : String) : indent 0 ++ t = t := by
  apply String.toList_inj.mp
  simp [indent]

/-- Below the top level every line is empty or begins with a blank. -/
theorem head?_linesAt {level : Nat} {l : String} :
    (c : Code) → l ∈ c.linesAt (level + 1) → l.toList.head? = none ∨ l.toList.head? = some ' '
  | .line text, h => by
    rw [linesAt, List.mem_singleton] at h
    exact Or.inr (by simp [h, indent, List.replicate_succ, Nat.mul_add])
  | .blank, h => by
    rw [linesAt, List.mem_singleton] at h
    exact Or.inl (by simp [h])
  | .block opening body closing, h => by
    rw [linesAt, List.mem_cons, List.mem_append, List.mem_singleton, mem_linesAllAt] at h
    rcases h with rfl | ⟨c, hc, hl⟩ | rfl
    · exact Or.inr (by simp [indent, List.replicate_succ, Nat.mul_add])
    · exact head?_linesAt c hl
    · exact Or.inr (by simp [indent, List.replicate_succ, Nat.mul_add])

end Code

theorem dropWhile_blanks (n : Nat) (cs : List Char) :
    (List.replicate n ' ' ++ cs).dropWhile (· == ' ') = cs.dropWhile (· == ' ') := by
  induction n with
  | zero => rfl
  | succ n ih => exact ih

/-- The blanks of a level do not matter. -/
theorem asyncMethodIn?_indent (level : Nat) (t : String) :
    asyncMethodIn? (Code.indent level ++ t) = asyncMethodIn? t := by
  unfold asyncMethodIn? Code.indent
  rw [String.toList_append, String.toList_ofList, dropWhile_blanks]

/-- No async method begins in a line whose first character but blanks begins none. -/
theorem asyncMethodIn?_eq_none {t : String} {c : Char} (h : (t.toList.dropWhile (· == ' ')).head? = some c)
    (hp : c ≠ 'p') (ha : c ≠ 'a') : asyncMethodIn? t = none := by
  obtain ⟨cs, hcs⟩ := List.head?_eq_some_iff.mp h
  have hnone (words : List Char) (first : Char) (hwords : words.head? = some first) (hne : c ≠ first) :
      Code.nameBehind? words (c :: cs) = none := by
    obtain ⟨more, rfl⟩ := List.head?_eq_some_iff.mp hwords
    refine if_neg fun hprefix => ?_
    obtain ⟨rest, hrest⟩ := List.isPrefixOf_iff_prefix.mp hprefix
    exact hne (List.cons.inj hrest).1.symm
  unfold asyncMethodIn?
  simp only [hcs, hnone "pub async fn ".toList 'p' rfl hp, hnone "async fn ".toList 'a' rfl ha,
    Option.none_or]

/-- No words with a blank and no colon stand where a word with a colon behind it begins. -/
theorem nameBehind?_eq_none {words w rest : List Char} (hblank : ' ' ∈ words) (hcolon : ':' ∉ words)
    (hw : ' ' ∉ w) : Code.nameBehind? words (w ++ ':' :: rest) = none := by
  refine if_neg fun hprefix => ?_
  have hwords : words <+: w ++ ':' :: rest := List.isPrefixOf_iff_prefix.mp hprefix
  rcases List.prefix_or_prefix_of_prefix hwords (List.prefix_append w (':' :: rest)) with h | h
  · exact hw (h.subset hblank)
  · obtain ⟨more, rfl⟩ := h
    obtain ⟨behind, hbehind⟩ := (List.prefix_append_right_inj w).mp hwords
    cases more with
    | nil => exact hw (by simpa using hblank)
    | cons c more =>
        obtain rfl := (List.cons.inj hbehind).1
        exact hcolon (by simp)

theorem ne_blank_of_word {w : List Char} {c : Char} (hw : Lexeme.IsWord w) (hc : c ∈ w) : c ≠ ' ' := by
  rcases hw.continues hc with hcontinue | rfl
  · exact Lexeme.ne_of_continue hcontinue (by decide)
  · decide

theorem asyncMethodIn?_entry {field : String} (h : Lexeme.IsWord field.toList) :
    asyncMethodIn? (field ++ ": new_value,") = none := by
  have hblank : ' ' ∉ field.toList := fun hmem => ne_blank_of_word h hmem rfl
  have htext : (field ++ ": new_value,").toList = field.toList ++ ':' :: " new_value,".toList := by
    rw [String.toList_append]
    rfl
  have hdrop : (field.toList ++ ':' :: " new_value,".toList).dropWhile (· == ' ') =
      field.toList ++ ':' :: " new_value,".toList := by
    obtain ⟨c, tail, hcs, -⟩ := h.cons
    have hc : c ≠ ' ' := ne_blank_of_word h (hcs ▸ List.mem_cons_self)
    rw [hcs, List.cons_append, List.dropWhile_cons_of_neg (by simpa using hc)]
  unfold asyncMethodIn?
  simp only [htext, hdrop]
  rw [nameBehind?_eq_none (by decide) (by decide) hblank,
    nameBehind?_eq_none (by decide) (by decide) hblank]
  rfl

/-! ## The lines of mutators -/

/-- The line that begins a mutator. -/
def Mutator.signature (m : Mutator) : String :=
  "pub async fn " ++ m.name ++
    if m.awaiting then "<F>(&self, transform: impl ::core::ops::FnOnce(" ++ m.type.text ++ ") -> F)"
    else "(&self, transform: impl ::core::ops::FnOnce(" ++ m.type.text ++ ") -> " ++ m.type.text
      ++ ") \x7b"

/-- The line at the first level that begins a mutator. -/
def Mutator.signatureLine (m : Mutator) : String := Code.indent 1 ++ m.signature

/-- A word ends in front of a parenthesis and an angle bracket. -/
theorem isWord_of_word {name : String} (h : Lexeme.IsWord name.toList) : IsWord name := by
  intro c hc
  rcases h.continues hc with hcontinue | rfl
  · have hopen : c ≠ '(' := Lexeme.ne_of_continue hcontinue (by decide)
    have hangle : c ≠ '<' := Lexeme.ne_of_continue hcontinue (by decide)
    simp [hopen, hangle]
  · decide

theorem asyncMethodIn?_signature {m : Mutator} (h : Lexeme.IsWord m.name.toList) :
    asyncMethodIn? m.signatureLine = some m.name := by
  rw [Mutator.signatureLine, asyncMethodIn?_indent]
  have hbehind (rest : String) (c : Char) (hrest : rest.toList.head? = some c)
      (hc : (c != '(' && c != '<') = false) :
      asyncMethodIn? ("pub async fn " ++ m.name ++ rest) = some m.name := by
    have htext : ("pub async fn " ++ m.name ++ rest).toList =
        "pub async fn ".toList ++ (m.name.toList ++ rest.toList) := by
      simp only [String.toList_append, List.append_assoc]
    have hdrop : ("pub async fn ".toList ++ (m.name.toList ++ rest.toList)).dropWhile (· == ' ') =
        "pub async fn ".toList ++ (m.name.toList ++ rest.toList) := rfl
    unfold asyncMethodIn?
    simp only [htext, hdrop]
    rw [Code.nameBehind?_words _ (isWord_of_word h) hrest hc, Option.some_or]
  unfold Mutator.signature
  cases m.awaiting with
  | true => exact hbehind _ '<' (by simp) rfl
  | false => exact hbehind _ '(' (by simp) rfl

/-- Whether an async method begins in a line. -/
abbrev beginsAsync (l : String) : Bool := (asyncMethodIn? l).isSome

theorem beginsAsync_indent {t : String} (h : asyncMethodIn? t = none) (level : Nat) :
    beginsAsync (Code.indent level ++ t) = false := by
  rw [beginsAsync, asyncMethodIn?_indent, h]
  rfl

/-- No async method begins in a line that begins with another character. -/
theorem beginsAsync_first {t : String} {c : Char} (h : t.toList.head? = some c)
    (hc : c ≠ ' ' ∧ c ≠ 'p' ∧ c ≠ 'a') (level : Nat) : beginsAsync (Code.indent level ++ t) = false := by
  obtain ⟨hblank, hp, ha⟩ := hc
  refine beginsAsync_indent (asyncMethodIn?_eq_none ?_ hp ha) level
  obtain ⟨cs, hcs⟩ := List.head?_eq_some_iff.mp h
  rw [hcs, List.dropWhile_cons_of_neg (by simpa using hblank)]
  rfl

namespace Wrapper

variable {w : Wrapper} {m : Mutator}

theorem filter_updateCode (w : Wrapper) (h : Lexeme.IsWord m.field.toList) (level : Nat) :
    (Code.linesAllAt level (w.updateCode m)).filter beginsAsync = [] := by
  have hold := beginsAsync_first (t := "let old_state = self.flow.value();") (c := 'l') (by simp)
    (by decide)
  have hvalue := beginsAsync_first (t := "let old_value = old_state." ++ m.field ++ ";") (c := 'l')
    (by simp) (by decide)
  have htransform := beginsAsync_first (t := "let new_value = transform(old_value)"
    ++ (if m.awaiting then ".await" else "") ++ ";") (c := 'l') (by simp) (by decide)
  have hopening := beginsAsync_first (t := "let new_state = " ++ w.root ++ " \x7b") (c := 'l')
    (by simp) (by decide)
  have hentry := beginsAsync_indent (asyncMethodIn?_entry h)
  have hrest := beginsAsync_first (t := "..old_state") (c := '.') (by simp) (by decide)
  have hclosing := beginsAsync_first (t := "\x7d;") (c := '\x7d') (by simp) (by decide)
  have hemit := beginsAsync_first (t := "self.flow.emit(new_state).await;") (c := 's') (by simp)
    (by decide)
  unfold updateCode
  cases w.keepsOthers with
  | true =>
      simp only [Code.linesAllAt, Code.linesAt, List.cons_append, List.nil_append, List.filter_cons,
        hold, hvalue, htransform, hopening, hentry, hrest, hclosing, hemit, Bool.false_eq_true,
        if_false, if_true, List.filter_nil]
  | false =>
      simp only [Code.linesAllAt, Code.linesAt, List.cons_append, List.nil_append, List.filter_cons,
        hold, hvalue, htransform, hopening, hentry, hclosing, hemit, Bool.false_eq_true,
        if_false, List.filter_nil]

/-- In the lines of a mutator one async method begins, in its signature. -/
theorem filter_mutatorCode (w : Wrapper) (hfield : Lexeme.IsWord m.field.toList)
    (hname : Lexeme.IsWord m.name.toList) :
    (Code.linesAllAt 1 (w.mutatorCode m)).filter beginsAsync = [m.signatureLine] := by
  have hsignature : beginsAsync m.signatureLine = true := by
    rw [beginsAsync, asyncMethodIn?_signature hname]
    rfl
  have hbody := filter_updateCode w hfield 2
  have hblank : beginsAsync "" = false := by decide
  have hclosing := beginsAsync_first (t := "\x7d") (c := '\x7d') (by simp) (by decide)
  obtain ⟨field, awaiting, type⟩ := m
  cases awaiting with
  | true =>
      have hdoc := beginsAsync_first (t := "/// Like [`Self::" ++ field
        ++ "`], with a transform that can await") (c := '/') (by simp) (by decide)
      have hwhere := beginsAsync_first (t := "where") (c := 'w') (by simp) (by decide)
      have hbound := beginsAsync_indent (t := "    F: ::core::future::Future<Output = " ++ type.text ++ ">,")
        (asyncMethodIn?_eq_none (c := 'F') (by simp) (by decide) (by decide))
      have hopening := beginsAsync_first (t := "\x7b") (c := '\x7b') (by simp) (by decide)
      have hline : Code.indent 1 ++ ("pub async fn " ++ Mutator.name ⟨field, true, type⟩
          ++ "<F>(&self, transform: impl ::core::ops::FnOnce(" ++ type.text ++ ") -> F)") =
          Mutator.signatureLine ⟨field, true, type⟩ := by
        simp only [Mutator.signatureLine, Mutator.signature, if_true, String.append_assoc]
      simp only [mutatorCode, if_true, Code.linesAllAt, Code.linesAt, List.cons_append,
        List.nil_append, List.append_nil, List.filter_cons, List.filter_append, hblank, hdoc, hline,
        hsignature, hwhere, hbound, hopening, hbody, hclosing, Bool.false_eq_true, if_false,
        List.filter_nil]
  | false =>
      have hdoc := beginsAsync_first (t := "/// Replace `" ++ field ++ "` with `transform(" ++ field
        ++ ")` and publish the resulting state") (c := '/') (by simp) (by decide)
      have hline : Code.indent 1 ++ ("pub async fn " ++ Mutator.name ⟨field, false, type⟩
          ++ "(&self, transform: impl ::core::ops::FnOnce(" ++ type.text ++ ") -> " ++ type.text ++ ")"
          ++ " \x7b") = Mutator.signatureLine ⟨field, false, type⟩ := by
        have hend : ") \x7b" = ")" ++ " \x7b" := rfl
        simp only [Mutator.signatureLine, Mutator.signature, hend, Bool.false_eq_true, if_false,
          String.append_assoc]
      simp only [mutatorCode, Bool.false_eq_true, if_false, Code.braced, Code.linesAllAt, Code.linesAt,
        List.cons_append, List.nil_append, List.append_nil, List.filter_cons, List.filter_append,
        hblank, hdoc, hline, hsignature, hbody, hclosing, if_true, List.filter_nil]

theorem filter_accessorCode (w : Wrapper) :
    (Code.linesAllAt 1 w.accessorCode).filter beginsAsync = [] := by
  have hdoc := beginsAsync_first (t := "/// Read-only view of the current and future states")
    (c := '/') (by simp) (by decide)
  have hopening : ∀ level, beginsAsync (Code.indent level ++ ("pub fn flow(&self) -> " ++ w.runtime
      ++ "::StateFlow<" ++ w.root ++ ">" ++ " \x7b")) = false := by
    refine beginsAsync_indent ?_
    simp [asyncMethodIn?, Code.nameBehind?]
  have hview := beginsAsync_first (t := "self.flow.as_state_flow()") (c := 's') (by simp) (by decide)
  have hclosing := beginsAsync_first (t := "\x7d") (c := '\x7d') (by simp) (by decide)
  simp only [accessorCode, Code.braced, Code.linesAllAt, Code.linesAt, List.cons_append,
    List.nil_append, List.append_nil, List.filter_cons, hdoc, hopening, hview, hclosing,
    Bool.false_eq_true, if_false, List.filter_nil]

/-- In the lines of all methods the async ones begin in the signatures of the mutators. -/
theorem filter_methods (hw : w.Spelled) :
    (Code.linesAllAt 1 (w.accessorCode ++ w.mutators.flatMap w.mutatorCode)).filter beginsAsync =
      w.mutators.map Mutator.signatureLine := by
  rw [Code.linesAllAt_append, Code.linesAllAt_flatMap, List.filter_append, filter_accessorCode,
    List.nil_append, List.filter_flatMap, ← List.flatMap_pure_eq_map]
  exact List.flatMap_congr fun m hm => filter_mutatorCode w (hw.mutators m hm).1 (hw.mutators m hm).2.1

/-! ## The lines around the methods -/

/-- The line that opens the block of the methods. -/
def implLine (w : Wrapper) : String := "impl " ++ w.name ++ " \x7b"

/-- The lines in front of the block of the methods. -/
def linesBefore (w : Wrapper) : List String := Code.linesAllAt 0 (w.header ++ w.typeCode)

/-- The lines behind the block of the methods. -/
def linesBehind (w : Wrapper) : List String := "" :: Code.linesAllAt 0 w.constructorCode ++ [""]

theorem lines_code (w : Wrapper) : Code.linesAllAt 0 w.code ++ [""] = w.linesBefore ++ w.implLine ::
    (Code.linesAllAt 1 (w.accessorCode ++ w.mutators.flatMap w.mutatorCode) ++
      "\x7d" :: w.linesBehind) := by
  rw [code, Code.linesAllAt_append, Code.linesAllAt_append, linesBefore, linesBehind, implLine]
  simp [methodsCode, Code.braced, Code.linesAllAt, Code.linesAt, Code.indent_zero]

theorem getLast?_append {s t : String} {c : Char} (h : t.toList.getLast? = some c) :
    (s ++ t).toList.getLast? = some c := by
  rw [String.toList_append, List.getLast?_append, h, Option.some_or]

/-- What tells the lines of a header from the lines that are looked for. -/
structure IsHeaderLine (l : String) : Prop where
  first : l.toList.head? ≠ some 'i'
  last : l.toList.getLast? ≠ some '\x7b'
  title : startsWith "/// Observable store for [`" l.toList = false

theorem isHeaderLine_empty : IsHeaderLine "" := ⟨by decide, by decide, by decide⟩

theorem isHeaderLine_header (w : Wrapper) : ∀ l ∈ Code.linesAllAt 0 w.header, IsHeaderLine l := by
  intro l hl
  unfold header at hl
  split at hl
  · cases hl
  · rw [Code.linesAllAt_append, Code.linesAllAt_append] at hl
    simp only [Code.linesAllAt, Code.linesAt, Code.indent_zero, List.cons_append, List.nil_append,
      List.append_nil, List.mem_cons, List.mem_append, Code.mem_linesAllAt, List.mem_map,
      List.not_mem_nil, or_false] at hl
    rcases hl with rfl | rfl | ⟨_, ⟨i, -, rfl⟩, hl⟩ | rfl
    · refine ⟨by simp, ?_, ?_⟩
      · rw [getLast?_append (c := '.') (by simp)]
        decide
      · simp [startsWith, List.isPrefixOf]
    · exact isHeaderLine_empty
    · rw [Code.linesAt, Code.indent_zero, List.mem_singleton] at hl
      subst hl
      refine ⟨by simp, ?_, ?_⟩
      · rw [getLast?_append (c := ';') (by simp)]
        decide
      · simp [startsWith, List.isPrefixOf]
    · exact isHeaderLine_empty

/-- The line that begins the type. -/
def structLine (w : Wrapper) : String := w.modifier ++ "struct " ++ w.name ++ " \x7b"

/-- The line that names the root. -/
def titleLine (w : Wrapper) : String := "/// Observable store for [`" ++ w.root ++ "`]."

theorem titleLine_eq (w : Wrapper) :
    w.titleLine = "/// Observable store for [`" ++ w.root ++ "`]." := rfl

theorem lines_typeCode (w : Wrapper) : Code.linesAllAt 0 w.typeCode =
    [w.titleLine, "///", "/// Every field of `" ++ w.root ++ "` has an async mutator of the same name.",
      w.structLine, Code.indent 1 ++ ("flow: " ++ w.runtime ++ "::MutableStateFlow<" ++ w.root ++ ">,"),
      "\x7d", ""] := by
  simp only [typeCode, Code.braced, Code.linesAllAt, Code.linesAt, Code.indent_zero, List.cons_append,
    List.nil_append, titleLine_eq, structLine]

theorem first_typeCode (hm : w.modifier = "" ∨ w.modifier.toList.head? = some 'p') :
    ∀ l ∈ Code.linesAllAt 0 w.typeCode, l.toList.head? ≠ some 'i' := by
  have hstruct : w.structLine.toList.head? ≠ some 'i' := by
    rw [structLine]
    rcases hm with hnone | hsome
    · simp [hnone]
    · simp [List.head?_append, hsome]
  rw [lines_typeCode]
  simp only [List.forall_mem_cons, List.not_mem_nil, false_imp_iff, implies_true, and_true]
  exact ⟨by simp [titleLine_eq], by simp, by simp, hstruct, by simp [Code.indent, List.replicate_succ],
    by simp, by simp⟩

/-- The lines in front of the methods do not open their block. -/
theorem ne_implLine (hm : w.modifier = "" ∨ w.modifier.toList.head? = some 'p') :
    ∀ l ∈ w.linesBefore, (l != w.implLine) = true := by
  have himpl : w.implLine.toList.head? = some 'i' := by simp [implLine]
  have hfirst : ∀ l ∈ w.linesBefore, l.toList.head? ≠ some 'i' := by
    rw [linesBefore, Code.linesAllAt_append]
    exact List.forall_mem_append.mpr
      ⟨fun l hl => (isHeaderLine_header w l hl).first, first_typeCode hm⟩
  intro l hl
  refine bne_iff_ne.mpr fun heq => hfirst l hl ?_
  rw [heq, himpl]

/-- The lines of the block that gives the wrapper its methods. -/
theorem implLines_code (hm : w.modifier = "" ∨ w.modifier.toList.head? = some 'p') :
    implLines w.name (Code.linesAllAt 0 w.code ++ [""]) =
      Code.linesAllAt 1 (w.accessorCode ++ w.mutators.flatMap w.mutatorCode) := by
  have hbody : ∀ l ∈ Code.linesAllAt 1 (w.accessorCode ++ w.mutators.flatMap w.mutatorCode),
      (l != "\x7d") = true := by
    intro l hl
    obtain ⟨c, -, hl⟩ := Code.mem_linesAllAt.mp hl
    refine bne_iff_ne.mpr fun heq => ?_
    have hfirst := Code.head?_linesAt c hl
    rw [heq] at hfirst
    exact absurd hfirst (by decide)
  have hopening : "impl " ++ w.name ++ " \x7b" = w.implLine := rfl
  rw [lines_code, implLines, hopening, List.dropWhile_append_of_pos (ne_implLine hm),
    List.dropWhile_cons_of_neg (by simp), List.drop_one, List.tail_cons,
    List.takeWhile_append_of_pos hbody, List.takeWhile_cons_of_neg (by simp), List.append_nil]

/-- The first line behind the header for which a test succeeds that fails in the header. -/
theorem find?_code (w : Wrapper) {p : String → Bool} {l : String}
    (hheader : ∀ l ∈ Code.linesAllAt 0 w.header, p l = false)
    (hl : (Code.linesAllAt 0 w.typeCode).find? p = some l) :
    (Code.linesAllAt 0 w.code ++ [""]).find? p = some l := by
  have hnone : (Code.linesAllAt 0 w.header).find? p = none :=
    List.find?_eq_none.mpr fun l hl => by simp [hheader l hl]
  rw [lines_code, List.find?_append, linesBefore, Code.linesAllAt_append, List.find?_append, hnone,
    Option.none_or, hl, Option.some_or]

theorem titleOf_code (w : Wrapper) :
    titleOf (Code.linesAllAt 0 w.code ++ [""]) = some w.titleLine := by
  refine find?_code w (fun l hl => (isHeaderLine_header w l hl).title) ?_
  rw [lines_typeCode]
  refine List.find?_cons_of_pos ?_
  rw [titleLine_eq, String.append_assoc, String.toList_append]
  exact List.isPrefixOf_iff_prefix.mpr (List.prefix_append _ _)

theorem openingOf_code (w : Wrapper) :
    openingOf (Code.linesAllAt 0 w.code ++ [""]) = some w.structLine := by
  refine find?_code w (fun l hl => ?_) ?_
  · exact beq_eq_false_iff_ne.mpr (isHeaderLine_header w l hl).last
  · have htitle : w.titleLine.toList.getLast? = some '.' := by
      rw [titleLine_eq]
      exact getLast?_append (by simp)
    have hmethods : ("/// Every field of `" ++ w.root
        ++ "` has an async mutator of the same name.").toList.getLast? = some '.' :=
      getLast?_append (by simp)
    have hstruct : w.structLine.toList.getLast? = some '\x7b' := getLast?_append (by simp)
    rw [lines_typeCode, List.find?_cons_of_neg (by rw [htitle]; decide),
      List.find?_cons_of_neg (by decide), List.find?_cons_of_neg (by rw [hmethods]; decide),
      List.find?_cons_of_pos (by rw [hstruct]; decide)]

end Wrapper

/-! ## What the lines determine -/

theorem Mutator.signatureLine_awaiting (field : String) (type : WrittenType) :
    signatureLine ⟨field, true, type⟩ = Code.indent 1 ++ ("pub async fn " ++ awaitingMutatorName field ++
      ("<F>(&self, transform: impl ::core::ops::FnOnce(" ++ type.text ++ ") -> F)")) := by
  simp only [signatureLine, signature, name, if_true]

/-- The lines that begin the mutators determine the fields and their types as they are written. -/
theorem fields_of_signatures {d₁ d₂ : StoreDescription} {layout : Layout}
    {fs₁ fs₂ : List FieldDescription} (h₁ : ∀ f ∈ fs₁, Lexeme.IsWord f.name.toList)
    (h₂ : ∀ f ∈ fs₂, Lexeme.IsWord f.name.toList)
    (h : (fs₁.flatMap (Wrapper.mutatorsOf d₁ layout)).map Mutator.signatureLine =
      (fs₂.flatMap (Wrapper.mutatorsOf d₂ layout)).map Mutator.signatureLine) :
    fs₁.map FieldDescription.name = fs₂.map FieldDescription.name ∧
      fs₁.map (fun f => (d₁.written layout f.shape).text) =
        fs₂.map fun f => (d₂.written layout f.shape).text := by
  induction fs₁ generalizing fs₂ with
  | nil =>
      cases fs₂ with
      | nil => exact ⟨rfl, rfl⟩
      | cons f₂ fs₂ => cases h
  | cons f₁ fs₁ ih =>
      cases fs₂ with
      | nil => cases h
      | cons f₂ fs₂ =>
          obtain ⟨hf₁, hfs₁⟩ := List.forall_mem_cons.mp h₁
          obtain ⟨hf₂, hfs₂⟩ := List.forall_mem_cons.mp h₂
          obtain ⟨hplain, h⟩ := List.cons.inj h
          obtain ⟨hawaiting, h⟩ := List.cons.inj h
          obtain ⟨hnames, htypes⟩ := ih hfs₁ hfs₂ h
          have hname : f₁.name = f₂.name := by
            have hread₁ := asyncMethodIn?_signature (m := ⟨f₁.name, false, d₁.written layout f₁.shape⟩) hf₁
            have hread₂ := asyncMethodIn?_signature (m := ⟨f₂.name, false, d₂.written layout f₂.shape⟩) hf₂
            rw [hplain] at hread₁
            exact Option.some.inj (hread₁.symm.trans hread₂)
          have htype : (d₁.written layout f₁.shape).text = (d₂.written layout f₂.shape).text := by
            rw [Mutator.signatureLine_awaiting, Mutator.signatureLine_awaiting, hname] at hawaiting
            simpa using hawaiting
          exact ⟨congrArg₂ List.cons hname hnames, congrArg₂ List.cons htype htypes⟩

theorem first_inlineModifier (v : Visibility) :
    v.inlineModifier = "" ∨ v.inlineModifier.toList.head? = some 'p' := by
  cases v with
  | inherited => exact Or.inl rfl
  | everywhere => exact Or.inr (by simp [Visibility.inlineModifier])
  | crate => exact Or.inr (by simp [Visibility.inlineModifier])
  | super => exact Or.inr (by simp [Visibility.inlineModifier])
  | restricted path => exact Or.inr (by simp [Visibility.inlineModifier])

theorem first_childModifier (v : Visibility) :
    v.childModifier = "" ∨ v.childModifier.toList.head? = some 'p' := by
  unfold Visibility.childModifier
  split
  · exact Or.inr (by simp)
  · exact Or.inr (by simp)
  · split
    · exact Or.inr (by simp)
    · split
      · exact Or.inr (by simp)
      · exact first_inlineModifier _
  · exact first_inlineModifier _

theorem first_modifier (d : StoreDescription) (o : EmitOptions) :
    (Wrapper.ofDescription d o).modifier = "" ∨
      (Wrapper.ofDescription d o).modifier.toList.head? = some 'p' := by
  unfold Wrapper.ofDescription
  cases o.layout with
  | inline => exact first_inlineModifier _
  | module => exact first_childModifier _

theorem filterMap_filter_isSome {α β : Type} (f : α → Option β) (as : List α) :
    (as.filter fun a => (f a).isSome).filterMap f = as.filterMap f := by
  rw [List.filterMap_filter]
  refine List.filterMap_congr fun a _ => ?_
  cases f a <;> rfl

section

variable {d d₁ d₂ : StoreDescription} {o : EmitOptions}

/-- In the lines of a wrapper the async methods begin in the signatures of its mutators. -/
theorem signaturesOf_emit (hd : d.Spelled) (ho : IsPathText o.runtimePath) :
    signaturesOf d.storeName (linesOf (d.emit o).source) =
      (d.fields.flatMap (Wrapper.mutatorsOf d o.layout)).map Mutator.signatureLine := by
  rw [signaturesOf, linesOf_emit hd ho]
  have hlines := Wrapper.implLines_code (first_modifier d o)
  have hfilter := Wrapper.filter_methods (spelled_ofDescription hd ho)
  rw [← hlines] at hfilter
  exact hfilter

/-- The async methods in the text of a wrapper. -/
theorem asyncMethodsOf_emit (hd : d.Spelled) (ho : IsPathText o.runtimePath) :
    asyncMethodsOf d.storeName (d.emit o).source =
      d.fields.flatMap fun f => [f.name, f.awaitingMutator] := by
  have hmutator : ∀ m ∈ d.fields.flatMap (Wrapper.mutatorsOf d o.layout),
      asyncMethodIn? m.signatureLine = some m.name := fun m hm =>
    asyncMethodIn?_signature ((spelled_ofDescription hd ho).mutators m hm).2.1
  have hsignatures := signaturesOf_emit hd ho
  rw [signaturesOf] at hsignatures
  calc asyncMethodsOf d.storeName (d.emit o).source
      = (d.fields.flatMap (Wrapper.mutatorsOf d o.layout)).filterMap
          (asyncMethodIn? ∘ Mutator.signatureLine) := by
        rw [asyncMethodsOf, ← filterMap_filter_isSome, hsignatures, List.filterMap_map]
    _ = (d.fields.flatMap (Wrapper.mutatorsOf d o.layout)).filterMap (some ∘ Mutator.name) :=
        List.filterMap_congr hmutator
    _ = d.fields.flatMap fun f => [f.name, f.awaitingMutator] := by
        rw [List.filterMap_eq_map, List.map_flatMap]
        rfl

/-- **The text of a wrapper determines the store.** Its methods that are async are two for every field,
    in the order of the fields: the one with the field's name, then the awaiting one. Two descriptions
    with the same text, written with the same options, have the same root, the same modifier, the same
    fields in the same order, and field by field the same type as it is written. -/
theorem emit_determines (o : EmitOptions) (h₁ : d₁.Spelled) (h₂ : d₂.Spelled)
    (ho : IsPathText o.runtimePath) :
    asyncMethodsOf d₁.storeName (d₁.emit o).source =
        d₁.fields.flatMap (fun f => [f.name, f.awaitingMutator]) ∧
      asyncMethodsOf d₂.storeName (d₂.emit o).source =
        d₂.fields.flatMap (fun f => [f.name, f.awaitingMutator]) ∧
      ((d₁.emit o).source = (d₂.emit o).source →
        d₁.root = d₂.root ∧
        (Wrapper.ofDescription d₁ o).modifier = (Wrapper.ofDescription d₂ o).modifier ∧
        d₁.fields.map FieldDescription.name = d₂.fields.map FieldDescription.name ∧
        d₁.fields.map (fun f => (d₁.written o.layout f.shape).text) =
          d₂.fields.map fun f => (d₂.written o.layout f.shape).text) := by
  refine ⟨asyncMethodsOf_emit h₁ ho, asyncMethodsOf_emit h₂ ho, fun hsource => ?_⟩
  have hlines : Code.linesAllAt 0 (Wrapper.ofDescription d₁ o).code ++ [""] =
      Code.linesAllAt 0 (Wrapper.ofDescription d₂ o).code ++ [""] := by
    rw [← linesOf_emit h₁ ho, ← linesOf_emit h₂ ho, hsource]
  have hroot : d₁.root = d₂.root := by
    have htitle := congrArg titleOf hlines
    rw [Wrapper.titleOf_code, Wrapper.titleOf_code, Wrapper.titleLine_eq, Wrapper.titleLine_eq] at htitle
    simpa [Wrapper.ofDescription] using htitle
  have hname : d₁.storeName = d₂.storeName := congrArg (· ++ "Store") hroot
  have hmodifier : (Wrapper.ofDescription d₁ o).modifier = (Wrapper.ofDescription d₂ o).modifier := by
    have hopening := congrArg openingOf hlines
    rw [Wrapper.openingOf_code, Wrapper.openingOf_code, Wrapper.structLine, Wrapper.structLine,
      show (Wrapper.ofDescription d₁ o).name = (Wrapper.ofDescription d₂ o).name from hname] at hopening
    simpa using hopening
  refine ⟨hroot, hmodifier, fields_of_signatures h₁.names h₂.names ?_⟩
  rw [← signaturesOf_emit h₁ ho, ← signaturesOf_emit h₂ ho, hname, hsource]

theorem written_origin (d : StoreDescription) (origin : Origin) (layout : Layout) : (s : Shape) →
    StoreDescription.written { d with origin := origin } layout s = d.written layout s
  | .mk home name args => by
      have hargs : args.map (StoreDescription.written { d with origin := origin } layout) =
          args.map (d.written layout) :=
        List.map_congr_left fun a _ => written_origin d origin layout a
      rw [StoreDescription.written, StoreDescription.written, hargs]
      rfl

/-- Where a declaration was found is not in the text of its wrapper. -/
theorem source_emit_origin (d : StoreDescription) (origin : Origin) (o : EmitOptions) :
    (StoreDescription.emit { d with origin := origin } o).source = (d.emit o).source := by
  have hmutators : d.fields.flatMap (Wrapper.mutatorsOf { d with origin := origin } o.layout) =
      d.fields.flatMap (Wrapper.mutatorsOf d o.layout) :=
    List.flatMap_congr fun f _ => by
      simp only [Wrapper.mutatorsOf, written_origin]
  have hwrapper : Wrapper.ofDescription { d with origin := origin } o = Wrapper.ofDescription d o := by
    unfold Wrapper.ofDescription
    rw [hmutators]
    rfl
  exact congrArg (fun w => Code.text w.code) hwrapper

/-- A page with a raw field and rows of another module, seen from a module of the crate. -/
def rawPage (origin : Origin) : StoreDescription where
  origin := origin
  home := .ofSegments ["crate", "ui"]
  root := "Page"
  visibility := .restricted "crate::ui"
  fields := [⟨"r#type", .mk Prelude.primitiveNamespace "u8" []⟩,
    ⟨"rows", .mk (.ofSegments ["std", "vec"]) "Vec" [.mk (.ofSegments ["crate", "grid"]) "Row" []]⟩]

theorem spelled_rawPage (origin : Origin) : (rawPage origin).Spelled := by
  have hword : ∀ n ∈ ["crate", "ui", "Page", "core", "primitive", "u8", "std", "vec", "Vec", "grid",
      "Row", "rows"], Lexeme.IsWord n.toList := by
    have hall : ∀ n ∈ ["crate", "ui", "Page", "core", "primitive", "u8", "std", "vec", "Vec", "grid",
        "Row", "rows"], Text.isIdentifierText n.toList = true := by decide
    exact fun n hn => Lexeme.isWord_iff.mpr (Or.inl (hall n hn))
  have hraw : Lexeme.IsWord "r#type".toList :=
    Lexeme.isWord_iff.mpr (Or.inr ⟨"type".toList, by decide, by decide, by decide⟩)
  have hpath (a b : String) (ha : Lexeme.IsWord a.toList) (hb : Lexeme.IsWord b.toList) :
      Namespace.Spelled (.ofSegments [a, b]) := by
    intro n hn
    rcases List.mem_pair.mp hn with rfl | rfl
    · exact ha
    · exact hb
  constructor
  case home => exact hpath _ _ (hword _ (by decide)) (hword _ (by decide))
  case root => exact hword "Page" (by decide)
  case visibility =>
    intro path h
    obtain rfl := Visibility.restricted.inj h
    refine ⟨⟨false, ["crate", "ui"]⟩, ⟨List.cons_ne_nil _ _, fun n hn => ?_⟩, by decide⟩
    exact hpath _ _ (hword _ (by decide)) (hword _ (by decide)) n hn
  case names =>
    exact List.forall_mem_cons.mpr ⟨hraw, List.forall_mem_singleton.mpr (hword _ (by decide))⟩
  case shapes =>
    refine List.forall_mem_cons.mpr ⟨?_, List.forall_mem_singleton.mpr ?_⟩
    · exact Shape.spelled_mk (hword _ (by decide))
        (hpath _ _ (hword _ (by decide)) (hword _ (by decide))) fun a ha => by cases ha
    · refine Shape.spelled_mk (hword _ (by decide))
        (hpath _ _ (hword _ (by decide)) (hword _ (by decide))) (List.forall_mem_singleton.mpr ?_)
      exact Shape.spelled_mk (hword _ (by decide))
        (hpath _ _ (hword _ (by decide)) (hword _ (by decide))) fun a ha => by cases ha

/-- Two pages that differ in where they were found. -/
theorem emit_determines_page : IsPathText EmitOptions.module.runtimePath ∧
    (rawPage .detached).Spelled ∧ (rawPage ⟨none, 1⟩).Spelled ∧
    asyncMethodsOf "PageStore" ((rawPage .detached).emit .module).source =
      ["r#type", "type_with", "rows", "rows_with"] ∧
    ((rawPage .detached).emit .module).source =
      ((rawPage ⟨none, 1⟩).emit .module).source ∧
    (Wrapper.ofDescription (rawPage .detached) .module).modifier =
      (Wrapper.ofDescription (rawPage ⟨none, 1⟩) .module).modifier := by
  have hfirst := spelled_rawPage .detached
  have hsecond := spelled_rawPage ⟨none, 1⟩
  obtain ⟨hmethods, -, hdetermined⟩ :=
    emit_determines EmitOptions.module hfirst hsecond isPathText_default
  have hsource : ((rawPage .detached).emit .module).source =
      ((rawPage ⟨none, 1⟩).emit .module).source :=
    (source_emit_origin (rawPage .detached) ⟨none, 1⟩ .module).symm
  exact ⟨isPathText_default, hfirst, hsecond, hmethods.trans (by decide), hsource,
    (hdetermined hsource).2.1⟩

end

end ObservableStore
