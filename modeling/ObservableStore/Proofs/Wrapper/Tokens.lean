import ObservableStore.Proofs.Spelled
import ObservableStore.Proofs.Token.Closes
import ObservableStore.Proofs.Wrapper.Lines
import ObservableStore.GeneratedUnit

/-!
# `Proofs.Wrapper.Tokens` — the text of a wrapper is made of tokens

The text of a wrapper is made of tokens, and every group in it closes (`ofText_emit`), when its
description is spelled with identifiers and the path of the runtime crate is. Every piece of the code
is judged by itself, at whatever level it stands and whatever groups are open around it
(`Code.Nests`); a line is fixed text with names, paths and types put in. As nothing that is put in ends
a line, the lines of the text are those of the code (`linesOf_emit`).
-/

namespace ObservableStore

open Token
open Lexeme (OneLine oneLine_append startsWith)

/-! ## What is put in -/

variable {names : List String} {name : String} {home : Namespace} {layout : Layout}

theorem inserted_names (hne : names ≠ []) (hnames : ∀ n ∈ names, Lexeme.IsWord n.toList) :
    Inserted ("::".intercalate names) := by
  induction names with
  | nil => exact absurd rfl hne
  | cons first rest ih =>
      obtain ⟨hfirst, hrest⟩ := List.forall_mem_cons.mp hnames
      by_cases hnil : rest = []
      · rw [hnil, String.intercalate_singleton]
        exact .word hfirst
      · rw [String.intercalate_cons_of_ne_nil hnil]
        exact (Inserted.word hfirst).joined (by decide) (ih hnil hrest)

theorem inserted_path {p : Source.Path} (hp : p.Spelled) : Inserted p.toText := by
  have hnames := inserted_names hp.nonempty hp.names
  rw [Source.Path.toText]
  cases p.rooted with
  | true => exact hnames.behind (by decide) (by decide)
  | false =>
      rw [if_neg Bool.false_ne_true, String.empty_append]
      exact hnames

theorem inserted_qualify (hhome : home.Spelled) (hname : Lexeme.IsWord name.toList) :
    Inserted (home.qualify name) := by
  by_cases hne : home.segments = []
  · -- without segments only the pairs of colons are left in front of the name
    have hempty : home.toText = "" := by rw [Namespace.toText_eq, hne, String.intercalate_nil]
    have hword : Inserted ("::" ++ name) := (Inserted.word hname).behind (by decide) (by decide)
    rw [Namespace.qualify, hempty]
    split
    · rwa [String.empty_append]
    · rw [String.append_empty, String.append_assoc]
      exact hword.behind (by decide) (by decide)
  · rw [← Namespace.toText_pathTo hne]
    refine inserted_path ⟨List.append_ne_nil_of_left_ne_nil hne _, ?_⟩
    exact List.forall_mem_append.mpr ⟨hhome, fun n hn => List.mem_singleton.mp hn ▸ hname⟩

theorem inserted_arguments {args : List String} (hne : args ≠ []) (h : ∀ a ∈ args, Inserted a) :
    Inserted (", ".intercalate args) := by
  induction args with
  | nil => exact absurd rfl hne
  | cons first rest ih =>
      obtain ⟨hfirst, hrest⟩ := List.forall_mem_cons.mp h
      by_cases hnil : rest = []
      · rw [hnil, String.intercalate_singleton]
        exact hfirst
      · rw [String.intercalate_cons_of_ne_nil hnil]
        exact hfirst.joined (by decide) (ih hnil hrest)

/-- A name with arguments in angle brackets. -/
theorem inserted_bracketed {s : String} {args : List String} (hs : Inserted s)
    (h : ∀ a ∈ args, Inserted a) : Inserted (s ++ Shape.bracketed args) := by
  rw [Shape.bracketed]
  split
  · rwa [String.append_empty]
  · next hne =>
      have harguments := inserted_arguments (fun hnil => hne (by rw [hnil]; rfl)) h
      have hopened := hs.joined (u := "<") (by decide) harguments
      have htext : s ++ ("<" ++ ", ".intercalate args ++ ">") =
          s ++ "<" ++ ", ".intercalate args ++ ">" := by simp only [String.append_assoc]
      rw [htext]
      refine ⟨?_, ?_, fun opened rest hrest hcloses => ?_⟩
      · rw [String.toList_append]
        exact oneLine_append.mpr ⟨hopened.oneLine, by decide⟩
      · obtain ⟨c, cs, hcs, hc⟩ := hopened.first
        exact ⟨c, _, by rw [String.toList_append, hcs]; rfl, hc⟩
      · have hclosing : Closes opened ('>' :: rest) :=
          hcloses.punct (by decide) (by decide) (by decide)
        rw [String.toList_append, List.append_assoc]
        exact hopened.closes opened _ (ends_of_typePunctuation (by decide)) hclosing

/-- A type of a field, as it is written. -/
theorem inserted_written (d : StoreDescription) (layout : Layout) {s : Shape} (h : s.Spelled) :
    Inserted (d.written layout s).text := by
  have harguments {args : List Shape} (ih : ∀ a ∈ args, a.Spelled → Inserted (d.written layout a).text)
      (hargs : ∀ a ∈ args, a.Spelled) :
      ∀ a ∈ (args.map (d.written layout)).map WrittenType.text, Inserted a := by
    intro a ha
    rw [List.map_map] at ha
    obtain ⟨b, hb, rfl⟩ := List.mem_map.mp ha
    exact ih b hb (hargs b hb)
  induction s using StoreDescription.written.induct d layout with
  | case1 home name args hsimple ih =>
      rw [StoreDescription.written, if_pos hsimple, WrittenType.text]
      exact inserted_bracketed (.word h.head.1) (harguments ih fun a ha => h.argument ha)
  | case2 home name args hsimple ih =>
      obtain ⟨hname, hhome⟩ := h.head
      rw [StoreDescription.written, if_neg hsimple, WrittenType.text]
      exact inserted_bracketed (inserted_qualify hhome hname) (harguments ih fun a ha => h.argument ha)

/-! ## Code in which every group closes -/

namespace Code

/-- A piece of code that closes every group it opens, at every level and whatever is open around it,
    and in which no text goes on behind the end of a line. -/
structure Nests (c : Code) : Prop where
  oneLine : ∀ level, ∀ l ∈ c.linesAt level, OneLine l.toList
  closes : ∀ level opened rest, Closes opened rest → Closes opened ((c.textAt level).toList ++ rest)

theorem oneLine_indent (level : Nat) {t : String} (h : OneLine t.toList) :
    OneLine (indent level ++ t).toList := by
  rw [String.toList_append, indent, String.toList_ofList]
  refine oneLine_append.mpr ⟨fun c hc => ?_, h⟩
  obtain rfl := List.eq_of_mem_replicate hc
  exact ⟨by decide, by decide⟩

theorem closes_indent (level : Nat) {opened : List Delimiter} {cs : List Char}
    (h : Closes opened cs) : Closes opened ((indent level).toList ++ cs) := by
  rw [indent, String.toList_ofList]
  induction 4 * level with
  | zero => exact h
  | succ n ih => exact ih.blank (by decide) (by decide)

theorem closes_textAllAt {cs : List Code} (h : ∀ c ∈ cs, c.Nests) (level : Nat)
    {opened : List Delimiter} {rest : List Char} (hrest : Closes opened rest) :
    Closes opened ((textAllAt level cs).toList ++ rest) := by
  induction cs with
  | nil => exact hrest
  | cons c cs ih =>
      obtain ⟨hc, hcs⟩ := List.forall_mem_cons.mp h
      rw [textAllAt, String.toList_append, List.append_assoc]
      exact hc.closes level opened _ (ih hcs)

/-- A line at a level, given what it does to the open groups. -/
theorem closes_line {t : String} {opened opened' : List Delimiter} {rest : List Char}
    (ht : Passes opened opened' t) (level : Nat) {outer : List Delimiter}
    (h : Closes (opened' ++ outer) rest) :
    Closes (opened ++ outer) ((indent level ++ t ++ "\n").toList ++ rest) := by
  have hend : Closes (opened' ++ outer) ('\n' :: rest) := h.blank (by decide) (by decide)
  have hline := closes_indent level (ht.closes outer _ (by simp) hend)
  simpa using hline

namespace Nests

variable {t : String}

/-- A line, given what it does in front of the end of a line. -/
theorem ofLine (hline : OneLine t.toList) (h : ∀ opened rest, Closes opened ('\n' :: rest) →
    Closes opened (t.toList ++ '\n' :: rest)) : (Code.line t).Nests := by
  constructor
  · intro level l hl
    rw [linesAt, List.mem_singleton] at hl
    exact hl ▸ oneLine_indent level hline
  · intro level opened rest hrest
    have hend : Closes opened ('\n' :: rest) := hrest.blank (by decide) (by decide)
    have hindented := closes_indent level (h opened rest hend)
    simpa [textAt] using hindented

theorem line (ht : Passes [] [] t) : (Code.line t).Nests :=
  .ofLine ht.oneLine fun opened _ hend => ht.closes opened _ (by simp) hend

/-- A line that may end inside a word. -/
theorem inserted (ht : Inserted t) : (Code.line t).Nests := by
  refine .ofLine ht.oneLine fun opened rest hend => ht.closes opened _ ⟨?_, ?_⟩ hend
  · intro c hc
    obtain rfl := Option.some.inj hc
    decide
  · intro c hc
    obtain rfl := Option.some.inj hc
    decide

/-- A line of documentation. -/
theorem doc {text : List Char} (ht : t.toList = '/' :: '/' :: '/' :: text) (hline : OneLine text)
    (hslash : text.head? ≠ some '/') : (Code.line t).Nests := by
  refine .ofLine ?_ fun opened rest hend => ?_
  · rw [ht]
    exact oneLine_append.mpr ⟨(by decide : OneLine ['/', '/', '/']), hline⟩
  · rw [ht]
    exact Closes.doc hline hslash hend

/-- A comment that documents nothing. -/
theorem comment {text : List Char} (ht : t.toList = '/' :: '/' :: text) (hline : OneLine text)
    (hfirst : text.head? ≠ some '/' ∧ text.head? ≠ some '!') : (Code.line t).Nests := by
  refine .ofLine ?_ fun opened rest hend => ?_
  · rw [ht]
    exact oneLine_append.mpr ⟨(by decide : OneLine ['/', '/']), hline⟩
  · rw [ht]
    exact Closes.comment hline hfirst hend

theorem blank : Code.blank.Nests := by
  constructor
  · intro level l hl
    rw [linesAt, List.mem_singleton] at hl
    rw [hl]
    decide
  · intro level opened rest hrest
    rw [textAt]
    exact Closes.blank (c := '\n') (by decide) (by decide) hrest

theorem block {opening closing : String} {body : List Code} {d : Delimiter}
    (hopening : Passes [] [d] opening) (hbody : ∀ c ∈ body, c.Nests)
    (hclosing : Passes [d] [] closing) : (Code.block opening body closing).Nests := by
  constructor
  · intro level l hl
    rw [linesAt, List.mem_cons, List.mem_append, List.mem_singleton, mem_linesAllAt] at hl
    rcases hl with rfl | ⟨c, hc, hl⟩ | rfl
    · exact oneLine_indent level hopening.oneLine
    · exact (hbody c hc).oneLine _ l hl
    · exact oneLine_indent level hclosing.oneLine
  · intro level opened rest hrest
    have hend : Closes (d :: opened) ((indent level ++ closing ++ "\n").toList ++ rest) :=
      closes_line hclosing level hrest
    have hbody : Closes ([d] ++ opened) _ := closes_textAllAt hbody (level + 1) hend
    have hall := closes_line hopening level hbody
    simpa [textAt] using hall

end Nests

end Code

/-! ## The code of a wrapper -/

/-- A wrapper of which everything that is put into its code is made of tokens. -/
structure Wrapper.Spelled (w : Wrapper) : Prop where
  home : w.home.Spelled
  root : Lexeme.IsWord w.root.toList
  name : Lexeme.IsWord w.name.toList
  modifier : Passes [] [] w.modifier
  runtime : Inserted w.runtime
  imports : ∀ i ∈ w.imports, Inserted i.text
  mutators : ∀ m ∈ w.mutators, Lexeme.IsWord m.field.toList ∧ Lexeme.IsWord m.name.toList ∧
    Inserted m.type.text

/-- A line of documentation that says something. -/
structure DocLine (t : String) : Prop where
  starts : startsWith "/// " t.toList = true
  oneLine : OneLine t.toList

theorem DocLine.append {s t : String} (ht : DocLine t) (hs : OneLine s.toList) : DocLine (t ++ s) := by
  obtain ⟨more, hmore⟩ := List.isPrefixOf_iff_prefix.mp ht.starts
  refine ⟨List.isPrefixOf_iff_prefix.mpr ⟨more ++ s.toList, ?_⟩, ?_⟩
  · rw [String.toList_append, ← hmore, List.append_assoc]
  · rw [String.toList_append]
    exact oneLine_append.mpr ⟨ht.oneLine, hs⟩

theorem DocLine.nests {t : String} (ht : DocLine t) : (Code.line t).Nests := by
  obtain ⟨more, hmore⟩ := List.isPrefixOf_iff_prefix.mp ht.starts
  have htext : t.toList = '/' :: '/' :: '/' :: (' ' :: more) := hmore.symm
  have hline : OneLine ("///".toList ++ ' ' :: more) := by
    have h := ht.oneLine
    rwa [htext] at h
  exact .doc htext (oneLine_append.mp hline).2 (by simp)

/-- A comment that says something about the file. -/
theorem nests_remark {t : String} (hstarts : startsWith "// " t.toList = true)
    (hline : OneLine t.toList) : (Code.line t).Nests := by
  obtain ⟨more, hmore⟩ := List.isPrefixOf_iff_prefix.mp hstarts
  have htext : t.toList = '/' :: '/' :: (' ' :: more) := hmore.symm
  have hline' : OneLine ("//".toList ++ ' ' :: more) := by rwa [htext] at hline
  exact .comment htext (oneLine_append.mp hline').2 (by simp)

namespace Wrapper

variable {w : Wrapper} {m : Mutator}

theorem dropSeparators_suffix (cs : List Char) : dropSeparators cs <:+ cs := by
  fun_induction dropSeparators cs with
  | case1 rest ih => exact ih.trans (List.suffix_append [':', ':'] rest)
  | case2 cs _ => exact List.suffix_rfl

theorem nests_header (hw : w.Spelled) : ∀ c ∈ w.header, c.Nests := by
  unfold header
  cases w.layout with
  | inline => exact fun c hc => by cases hc
  | module =>
      have hroot : OneLine (String.ofList (dropSeparators (w.home.qualify w.root).toList)).toList := by
        rw [String.toList_ofList]
        exact fun c hc => (inserted_qualify hw.home hw.root).oneLine c
          ((dropSeparators_suffix _).subset hc)
      have htitle : (Code.line ("// @generated by flowstore from `"
          ++ String.ofList (dropSeparators (w.home.qualify w.root).toList)
          ++ "`. Do not edit.")).Nests := by
        refine nests_remark ?_ ?_
        · rw [String.toList_append, String.toList_append]
          rfl
        · rw [String.toList_append, String.toList_append]
          exact oneLine_append.mpr ⟨oneLine_append.mpr ⟨by decide, hroot⟩, by decide⟩
      have himports : ∀ c ∈ w.imports.map (fun i => Code.line ("use " ++ i.text ++ ";")), c.Nests := by
        intro c hc
        obtain ⟨i, hi, rfl⟩ := List.mem_map.mp hc
        exact .line ((Passes.fixed [] (by decide)).put (hw.imports i hi) [] (by decide))
      simp only [List.forall_mem_append, List.forall_mem_cons, List.not_mem_nil, false_imp_iff,
        implies_true, and_true]
      exact ⟨⟨⟨htitle, .blank⟩, himports⟩, .blank⟩

theorem nests_typeCode (hw : w.Spelled) : ∀ c ∈ w.typeCode, c.Nests := by
  have htitle : DocLine ("/// Observable store for [`" ++ w.root ++ "`].") :=
    (DocLine.append ⟨by decide, by decide⟩ hw.root.oneLine).append (by decide)
  have hmethods : DocLine ("/// Every field of `" ++ w.root
      ++ "` has an async mutator of the same name.") :=
    (DocLine.append ⟨by decide, by decide⟩ hw.root.oneLine).append (by decide)
  have hstruct : Passes [] [.brace] (w.modifier ++ "struct " ++ w.name ++ " \x7b") :=
    (hw.modifier.followed [] (by decide)).put (.word hw.name) [.brace] (by decide)
  have hflow : Passes [] [] ("flow: " ++ w.runtime ++ "::MutableStateFlow<" ++ w.root ++ ">,") :=
    ((Passes.fixed [] (by decide)).put hw.runtime [] (by decide)).put (.word hw.root) [] (by decide)
  simp only [typeCode, Code.braced, List.forall_mem_cons, List.not_mem_nil, false_imp_iff,
    implies_true, and_true]
  exact ⟨htitle.nests, .doc rfl (by decide) (by decide), hmethods.nests,
    .block hstruct (List.forall_mem_singleton.mpr (.line hflow)) (.fixed [] (by decide)), .blank⟩

theorem nests_accessorCode (hw : w.Spelled) : ∀ c ∈ w.accessorCode, c.Nests := by
  have hdoc : DocLine "/// Read-only view of the current and future states" :=
    ⟨by decide, by decide⟩
  have hopening : Passes [] [.brace] ("pub fn flow(&self) -> " ++ w.runtime ++ "::StateFlow<" ++ w.root
      ++ ">" ++ " \x7b") :=
    (((Passes.fixed [] (by decide)).put hw.runtime [] (by decide)).put (.word hw.root) []
      (by decide)).followed [.brace] (by decide)
  have hview : Passes [] [] "self.flow.as_state_flow()" := .fixed [] (by decide)
  exact List.forall_mem_cons.mpr ⟨hdoc.nests, List.forall_mem_singleton.mpr
    (.block hopening (List.forall_mem_singleton.mpr (.line hview)) (.fixed [] (by decide)))⟩

theorem nests_updateCode (hw : w.Spelled) (hm : m ∈ w.mutators) :
    ∀ c ∈ w.updateCode m, c.Nests := by
  have hfield := (hw.mutators m hm).1
  have hold : Passes [] [] "let old_state = self.flow.value();" := .fixed [] (by decide)
  have hvalue : Passes [] [] ("let old_value = old_state." ++ m.field ++ ";") :=
    (Passes.fixed [] (by decide)).put (.word hfield) [] (by decide)
  have htransform : Passes [] [] ("let new_value = transform(old_value)"
      ++ (if m.awaiting then ".await" else "") ++ ";") := by
    cases m.awaiting with
    | true => exact .fixed [] (by decide)
    | false => exact .fixed [] (by decide)
  have hopening : Passes [] [.brace] ("let new_state = " ++ w.root ++ " \x7b") :=
    (Passes.fixed [] (by decide)).put (.word hw.root) [.brace] (by decide)
  have hnew : Passes [] [] (m.field ++ ": new_value,") := by
    have hput := (Passes.fixed [] (by decide) : Passes [] [] "").put (.word hfield) []
      (by decide : openBehind .behindInserted [] ": new_value,".toList = some [])
    rwa [String.empty_append] at hput
  have hrest : ∀ c ∈ (if w.keepsOthers then [Code.line "..old_state"] else []), c.Nests := by
    cases w.keepsOthers with
    | true =>
        have hword : Inserted "old_state" := .word (Lexeme.isWord_iff.mpr (Or.inl (by decide)))
        have hdots : Inserted (".." ++ "old_state") := hword.behind (by decide) (by decide)
        exact List.forall_mem_singleton.mpr (.inserted hdots)
    | false => exact fun c hc => by cases hc
  have hclosing : Passes [.brace] [] "\x7d;" := .fixed [] (by decide)
  have hemit : Passes [] [] "self.flow.emit(new_state).await;" := .fixed [] (by decide)
  have hliteral := Code.Nests.block hopening
    (List.forall_mem_append.mpr ⟨List.forall_mem_singleton.mpr (.line hnew), hrest⟩) hclosing
  simp only [updateCode, List.forall_mem_cons, List.not_mem_nil, false_imp_iff, implies_true,
    and_true]
  exact ⟨.line hold, .line hvalue, .line htransform, hliteral, .line hemit⟩

theorem nests_mutatorCode (hw : w.Spelled) (hm : m ∈ w.mutators) :
    ∀ c ∈ w.mutatorCode m, c.Nests := by
  obtain ⟨hfield, hname, htype⟩ := hw.mutators m hm
  have hbody := nests_updateCode hw hm
  have hclosing : Passes [.brace] [] "\x7d" := .fixed [] (by decide)
  unfold mutatorCode
  dsimp only
  split
  · have hdoc : DocLine ("/// Like [`Self::" ++ m.field ++ "`], with a transform that can await") :=
      (DocLine.append ⟨by decide, by decide⟩ hfield.oneLine).append (by decide)
    have hsignature : Passes [] [] ("pub async fn " ++ m.name
        ++ "<F>(&self, transform: impl ::core::ops::FnOnce(" ++ m.type.text ++ ") -> F)") :=
      ((Passes.fixed [] (by decide)).put (.word hname) [.parenthesis, .parenthesis] (by decide)).put
        htype [] (by decide)
    have hwhere : Inserted "where" := .word (Lexeme.isWord_iff.mpr (Or.inl (by decide)))
    have hbound : Passes [] [] ("    F: ::core::future::Future<Output = " ++ m.type.text ++ ">,") :=
      (Passes.fixed [] (by decide)).put htype [] (by decide)
    simp only [List.forall_mem_cons, List.not_mem_nil, false_imp_iff, implies_true, and_true]
    exact ⟨.blank, hdoc.nests, .line hsignature, .inserted hwhere, .line hbound,
      .block (.fixed [.brace] (by decide)) hbody hclosing⟩
  · have hdoc : DocLine ("/// Replace `" ++ m.field ++ "` with `transform(" ++ m.field
        ++ ")` and publish the resulting state") :=
      (((DocLine.append ⟨by decide, by decide⟩ hfield.oneLine).append (by decide)).append
        hfield.oneLine).append (by decide)
    have hopening : Passes [] [.brace] ("pub async fn " ++ m.name
        ++ "(&self, transform: impl ::core::ops::FnOnce(" ++ m.type.text ++ ") -> " ++ m.type.text
        ++ ")" ++ " \x7b") :=
      ((((Passes.fixed [] (by decide)).put (.word hname) [.parenthesis, .parenthesis] (by decide)).put
        htype [.parenthesis] (by decide)).put htype [] (by decide)).followed [.brace] (by decide)
    simp only [List.forall_mem_cons, List.not_mem_nil, false_imp_iff, implies_true, and_true]
    exact ⟨.blank, hdoc.nests, .block hopening hbody hclosing⟩

theorem nests_methodsCode (hw : w.Spelled) : ∀ c ∈ w.methodsCode, c.Nests := by
  have hopening : Passes [] [.brace] ("impl " ++ w.name ++ " \x7b") :=
    (Passes.fixed [] (by decide)).put (.word hw.name) [.brace] (by decide)
  have hmutators : ∀ c ∈ w.mutators.flatMap w.mutatorCode, c.Nests := by
    intro c hc
    obtain ⟨m, hm, hc⟩ := List.mem_flatMap.mp hc
    exact nests_mutatorCode hw hm c hc
  have hbody := List.forall_mem_append.mpr ⟨nests_accessorCode hw, hmutators⟩
  exact List.forall_mem_cons.mpr ⟨.block hopening hbody (.fixed [] (by decide)),
    List.forall_mem_singleton.mpr .blank⟩

theorem nests_constructorCode (hw : w.Spelled) : ∀ c ∈ w.constructorCode, c.Nests := by
  have hclosing : Passes [.brace] [] "\x7d" := .fixed [] (by decide)
  have hroot : Passes [] [.brace] ("impl " ++ w.root ++ " \x7b") :=
    (Passes.fixed [] (by decide)).put (.word hw.root) [.brace] (by decide)
  have hdoc : DocLine ("/// Wrap this state in a new [`" ++ w.name ++ "`]") :=
    (DocLine.append ⟨by decide, by decide⟩ hw.name.oneLine).append (by decide)
  have hinto : Passes [] [.brace] ("pub fn into_store(self) -> " ++ w.name ++ " \x7b") :=
    (Passes.fixed [] (by decide)).put (.word hw.name) [.brace] (by decide)
  have hcall : Passes [] [] "::core::convert::From::from(self)" := .fixed [] (by decide)
  have himpl : Passes [] [.brace] ("impl ::core::convert::From<" ++ w.root ++ "> for " ++ w.name
      ++ " \x7b") :=
    ((Passes.fixed [] (by decide)).put (.word hw.root) [] (by decide)).put (.word hw.name) [.brace]
      (by decide)
  have hfrom : Passes [] [.brace] ("fn from(state: " ++ w.root ++ ") -> Self" ++ " \x7b") := by
    have hput := (Passes.fixed [.parenthesis] (by decide) : Passes [] _ "fn from(state: ").put
      (.word hw.root) [.brace]
      (by decide : openBehind .behindInserted [.parenthesis] ") -> Self \x7b".toList = some [.brace])
    have hjoin : ") -> Self" ++ " \x7b" = ") -> Self \x7b" := rfl
    rwa [String.append_assoc, hjoin]
  have hself : Passes [] [.brace] ("Self" ++ " \x7b") := .fixed [.brace] (by decide)
  have hflow : Passes [] [] ("flow: " ++ w.runtime ++ "::MutableStateFlow::new(state),") :=
    (Passes.fixed [] (by decide)).put hw.runtime [] (by decide)
  have hliteral := Code.Nests.block hself (List.forall_mem_singleton.mpr (.line hflow)) hclosing
  have hconversion := Code.Nests.block hfrom (List.forall_mem_singleton.mpr hliteral) hclosing
  have hmethod := Code.Nests.block hinto (List.forall_mem_singleton.mpr (.line hcall)) hclosing
  simp only [constructorCode, Code.braced, List.forall_mem_cons, List.not_mem_nil, false_imp_iff,
    implies_true, and_true]
  refine ⟨.block hroot ?_ hclosing, .blank,
    .block himpl (List.forall_mem_singleton.mpr hconversion) hclosing⟩
  exact List.forall_mem_cons.mpr ⟨hdoc.nests, List.forall_mem_singleton.mpr hmethod⟩

theorem nests_code (hw : w.Spelled) : ∀ c ∈ w.code, c.Nests := by
  rw [code, List.forall_mem_append, List.forall_mem_append, List.forall_mem_append]
  exact ⟨⟨⟨nests_header hw, nests_typeCode hw⟩, nests_methodsCode hw⟩, nests_constructorCode hw⟩

end Wrapper

/-! ## Units of spelled descriptions -/

theorem passes_inlineModifier {v : Visibility} (h : ∀ path, v = .restricted path → IsPathText path) :
    Passes [] [] v.inlineModifier := by
  cases v with
  | restricted path =>
      obtain ⟨p, hp, rfl⟩ := h path rfl
      exact (Passes.fixed [.parenthesis] (by decide)).put (inserted_path hp) [] (by decide)
  | inherited => exact .fixed [] (by decide)
  | everywhere => exact .fixed [] (by decide)
  | crate => exact .fixed [] (by decide)
  | super => exact .fixed [] (by decide)

theorem passes_childModifier {v : Visibility} (h : ∀ path, v = .restricted path → IsPathText path) :
    Passes [] [] v.childModifier := by
  cases v with
  | restricted path =>
      rw [Visibility.childModifier]
      split
      · exact .fixed [] (by decide)
      · split
        · obtain ⟨p, hp, rfl⟩ := h path rfl
          exact (Passes.fixed [.parenthesis] (by decide)).put (inserted_path hp) [] (by decide)
        · exact passes_inlineModifier h
  | inherited => exact .fixed [] (by decide)
  | everywhere => exact .fixed [] (by decide)
  | crate => exact .fixed [] (by decide)
  | super => exact .fixed [] (by decide)

/-- A word without its mark is an identifier. -/
theorem isIdentifierText_stripRawMarks {w : List Char} (hw : Lexeme.IsWord w) :
    Text.isIdentifierText (stripRawMarks w) = true := by
  have hplain {v : List Char} (hv : Text.isIdentifierText v = true) : stripRawMarks v = v := by
    rw [stripRawMarks]
    rintro rest rfl
    have hmark := (Lexeme.isIdentifierText_cons.mp hv).2 '#' List.mem_cons_self
    exact absurd hmark (by decide)
  rcases hw.named with h | ⟨v, rfl, hv, -⟩
  · rwa [hplain h]
  · rw [stripRawMarks, hplain hv]
    exact hv

theorem isWord_awaitingMutatorName {field : String} (h : Lexeme.IsWord field.toList) :
    Lexeme.IsWord (awaitingMutatorName field).toList := by
  rw [awaitingMutatorName, String.toList_append, String.toList_ofList]
  exact Lexeme.isWord_iff.mpr (Or.inl (Lexeme.isIdentifierText_append
    (isIdentifierText_stripRawMarks h) (by decide)))

/-- A path ends with its last name. -/
theorem Source.Path.toText_ends {p : Source.Path} (hp : p.Spelled) :
    ∃ front last, p.toText = front ++ last ∧ Lexeme.IsWord last.toList := by
  obtain ⟨init, last, hnames⟩ : ∃ init last, p.names = init ++ [last] :=
    ⟨_, _, (List.dropLast_append_getLast hp.nonempty).symm⟩
  have hlast : Lexeme.IsWord last.toList := hp.names last (by simp [hnames])
  by_cases hinit : init = []
  · exact ⟨_, last, by rw [toText, hnames, hinit, List.nil_append, String.intercalate_singleton], hlast⟩
  · refine ⟨(if p.rooted then "::" else "") ++ ("::".intercalate init ++ "::"), last, ?_, hlast⟩
    rw [toText, hnames, String.intercalate_append_of_ne_nil hinit (List.cons_ne_nil _ _),
      String.intercalate_singleton]
    simp only [String.append_assoc]

/-- A path of words has no pair of colons at its end. -/
theorem trimmedRuntime_path {s : String} (h : IsPathText s) : Wrapper.trimmedRuntime s = s := by
  obtain ⟨p, hp, rfl⟩ := h
  obtain ⟨front, last, htext, hlast⟩ := p.toText_ends hp
  obtain ⟨c, tail, hreverse⟩ : ∃ c tail, last.toList.reverse = c :: tail := by
    obtain ⟨c, tail, hcs, -⟩ := hlast.cons
    exact List.exists_cons_of_ne_nil (by simp [hcs])
  have hcolon : c ≠ ':' := by
    have hmem : c ∈ last.toList := List.mem_reverse.mp (hreverse ▸ List.mem_cons_self)
    rintro rfl
    rcases hlast.continues hmem with hcontinue | hmark
    · exact absurd hcontinue (by decide)
    · exact absurd hmark (by decide)
  have hkept : Wrapper.dropSeparators p.toText.toList.reverse = p.toText.toList.reverse := by
    rw [htext, String.toList_append, List.reverse_append, hreverse, List.cons_append,
      Wrapper.dropSeparators]
    intro rest heq
    exact absurd (List.cons.inj heq).1 hcolon
  rw [Wrapper.trimmedRuntime, hkept, List.reverse_reverse, String.ofList_toList]

theorem spelled_ofDescription {d : StoreDescription} (hd : d.Spelled) {o : EmitOptions}
    (ho : IsPathText o.runtimePath) : (Wrapper.ofDescription d o).Spelled where
  home := hd.home
  root := hd.root
  name := by
    show Lexeme.IsWord (d.root ++ "Store").toList
    rw [String.toList_append]
    exact hd.root.append (by decide) (by decide)
  modifier := by
    unfold Wrapper.ofDescription
    cases o.layout with
    | inline => exact passes_inlineModifier hd.visibility
    | module => exact passes_childModifier hd.visibility
  runtime := by
    show Inserted (Wrapper.trimmedRuntime o.runtimePath)
    rw [trimmedRuntime_path ho]
    obtain ⟨p, hp, htext⟩ := ho
    exact htext ▸ inserted_path hp
  imports := by
    unfold Wrapper.ofDescription
    cases o.layout with
    | inline => exact fun i hi => by cases hi
    | module =>
        intro i hi
        rcases StoreDescription.import_cases hi with rfl | ⟨s, hs, -, rfl⟩
        · exact inserted_qualify hd.home hd.root
        · obtain ⟨f, hf, hs⟩ := List.mem_flatMap.mp hs
          obtain ⟨hname, hhome⟩ := hd.shapes f hf s hs
          exact inserted_qualify hhome hname
  mutators := by
    intro m hm
    obtain ⟨f, hf, hm⟩ := List.mem_flatMap.mp hm
    have hname := hd.names f hf
    have htype := inserted_written d o.layout (hd.shapes f hf)
    rcases List.mem_pair.mp hm with rfl | rfl
    · exact ⟨hname, hname, htype⟩
    · exact ⟨hname, isWord_awaitingMutatorName hname, htype⟩

/-- The text of a wrapper begins with a comment. -/
theorem head?_code (w : Wrapper) : (Code.text w.code).toList.head? = some '/' := by
  have hline (t : String) (ht : t.toList.head? = some '/') (more : List Code) :
      (Code.text (.line t :: more)).toList.head? = some '/' := by
    rw [Code.text, Code.textAllAt, Code.textAt]
    simp [Code.indent, List.head?_append, ht]
  unfold Wrapper.code Wrapper.header Wrapper.typeCode
  cases w.layout with
  | inline => exact hline _ (by simp) _
  | module => exact hline _ (by simp) _

/-- **The text of a wrapper is made of tokens**, and every group in it closes, when its description
    and the path of the runtime crate are made of identifiers. -/
theorem ofText_emit {d : StoreDescription} (hd : d.Spelled) {o : EmitOptions}
    (ho : IsPathText o.runtimePath) : ∃ ts, Token.ofText (d.emit o).source = some ts := by
  have hnests := Wrapper.nests_code (spelled_ofDescription hd ho)
  have hcloses := Code.closes_textAllAt hnests 0 Closes.nil
  rw [List.append_nil] at hcloses
  refine hcloses.ofChars ?_
  rw [← Code.text, head?_code]
  decide

/-- The lines of a wrapper's text are those of its code. -/
theorem linesOf_emit {d : StoreDescription} (hd : d.Spelled) {o : EmitOptions}
    (ho : IsPathText o.runtimePath) :
    linesOf (d.emit o).source = Code.linesAllAt 0 (Wrapper.ofDescription d o).code ++ [""] := by
  refine Code.linesOf_text fun l hl => ?_
  obtain ⟨c, hc, hl⟩ := Code.mem_linesAllAt.mp hl
  exact (Wrapper.nests_code (spelled_ofDescription hd ho) c hc).oneLine 0 l hl

end ObservableStore
