import ObservableStore.Proofs.Source.Reads
import ObservableStore.Proofs.Wrapper.Naming

/-!
# `Proofs.Wrapper.ReadBack` — written types are read as what was written

The text of a written type whose paths can be written again (`WrittenType.Legible`) is read as the
type expression of those paths and arguments, at any depth (`typeOfText_written`). The induction is
on the written type, for whatever text follows it (`ReadsBack`): a type reads the same in front of a
comma, of a closing angle bracket and at the end.
-/

namespace ObservableStore

open Source Lexeme
open Source.Grammar (rules SpellsArguments SpellsPath Behind)
open Token (Lexed)

/-- Reads a text as the type of a field, with the type's tokens. -/
def Source.typeOfText (text : String) : Option (TypeExpr × List Token) :=
  Grammar.readText (fun r => Reader.recorded (r.type true)) text.toList

namespace WrittenType

/-- The type expression that a written type is the text of. -/
def expr : WrittenType → TypeExpr
  | .simple name args => .path (.ofName name) (args.map fun a => .type (expr a))
  | .qualified home name args => .path (home.pathTo name) (args.map fun a => .type (expr a))

theorem expr_eq (w : WrittenType) :
    w.expr = .path w.path (w.arguments.map fun a => .type a.expr) := by
  cases w <;> rw [expr] <;> rfl

/-- A written type of which each path can be read again. -/
inductive Legible : WrittenType → Prop where
  | mk {w : WrittenType}
      (text : w.text = w.path.toText ++ Shape.bracketed (w.arguments.map WrittenType.text))
      (path : w.path.Legible)
      (takes : w.arguments ≠ [] → ∃ name, w.path.names.getLast? = some name ∧ TakesArguments name)
      (other : w.path = .ofName "Self" → w.arguments ≠ [])
      (args : ∀ a ∈ w.arguments, Legible a) : Legible w

end WrittenType

/-! ## Texts of names -/

/-- What follows a type in a text, with its tokens. -/
inductive Continues : List Char → List Token → Prop where
  | nothing : Continues [] []
  | comma {cs : List Char} {ts : List Token} (h : Lexed cs ts) :
      Continues (',' :: cs) (.punct ',' (punctChar? cs).isSome :: ts)
  | closing {cs : List Char} {ts : List Token} (h : Lexed cs ts) :
      Continues ('>' :: cs) (.punct '>' (punctChar? cs).isSome :: ts)

section

variable {cs : List Char} {ts us : List Token}

theorem Continues.lexed (h : Continues cs ts) : Lexed cs ts := by
  cases h with
  | nothing => exact .nil
  | comma h => exact h.punct (by decide)
  | closing h => exact h.punct (by decide)

theorem Continues.follows (h : Continues cs ts) : Follows ts := by
  cases h with
  | nothing => exact .nothing
  | comma => exact .comma
  | closing => exact .closing

/-- Behind punctuation of types a word ends. -/
theorem ends_of_typePunctuation {c : Char} (hc : c ∈ typePunctuation) : Ends (c :: cs) := by
  have hall : typePunctuation.all (fun x =>
      !Text.isIdentifierContinue x && x != '"' && x != '\'' && x != '#') = true := by decide
  have hquiet := List.all_eq_true.mp hall c hc
  simp only [Bool.and_eq_true, Bool.not_eq_true', bne_iff_ne] at hquiet
  refine ⟨?_, ?_⟩
  · intro d hd
    obtain rfl := Option.some.inj hd
    exact hquiet.1.1.1
  · intro d hd
    obtain rfl := Option.some.inj hd
    exact ⟨hquiet.1.1.2, hquiet.1.2, hquiet.2⟩

theorem Continues.ends (h : Continues cs ts) : Ends cs := by
  cases h with
  | nothing => exact ⟨(fun c hc => by cases hc), (fun c hc => by cases hc)⟩
  | comma => exact ends_of_typePunctuation (by decide)
  | closing => exact ends_of_typePunctuation (by decide)

/-- Two colons are two tokens, the first one joined to the second one. -/
theorem lexed_colons (h : Lexed cs ts) :
    ∃ joint, Lexed (':' :: ':' :: cs) (.punct ':' true :: .punct ':' joint :: ts) := by
  have hjoint : (punctChar? (':' :: cs)).isSome = true := rfl
  refine ⟨(punctChar? cs).isSome, ?_⟩
  have hcolons := (h.punct (c := ':') (by decide)).punct (c := ':') (by decide)
  rwa [hjoint] at hcolons

theorem lexed_names {names : List String} (hne : names ≠ []) (hnames : ∀ n ∈ names, IsPathName n)
    (hends : Ends cs) (h : Lexed cs us) :
    ∃ ts, Lexed (Text.join "::".toList (names.map String.toList) ++ cs) ts ∧ Spells names ts us ∧
      us.length < ts.length := by
  induction names with
  | nil => exact absurd rfl hne
  | cons name rest ih =>
      have hword : Lexeme.IsWord name.toList := (hnames name List.mem_cons_self).word
      cases rest with
      | nil =>
          have hlexed := h.word hword hends
          rw [String.ofList_toList] at hlexed
          exact ⟨_, hlexed, .last, Nat.lt_succ_self _⟩
      | cons second others =>
          obtain ⟨ts, hlexed, hspells, hless⟩ := ih (List.cons_ne_nil _ _)
            fun n hn => hnames n (List.mem_cons_of_mem name hn)
          obtain ⟨joint, hcolons⟩ := lexed_colons hlexed
          have hname := hcolons.word hword (ends_of_typePunctuation (by decide))
          rw [String.ofList_toList] at hname
          have hspelled : Spells (name :: second :: others)
              (.word name :: .punct ':' true :: .punct ':' joint :: ts) us := .more hspells
          refine ⟨_, ?_, hspelled, ?_⟩
          · rw [List.map_cons, List.map_cons, Text.join, List.append_assoc, List.append_assoc]
            exact hname
          · simp only [List.length_cons]
            omega

theorem lexed_path {p : Path} (hp : p.Legible) (hends : Ends cs) (h : Lexed cs us) :
    ∃ ts, Lexed (p.toText.toList ++ cs) ts ∧ SpellsPath p ts us ∧ us.length < ts.length := by
  obtain ⟨ts, hlexed, hspells, hless⟩ := lexed_names hp.nonempty hp.names hends h
  obtain ⟨rooted, names⟩ := p
  cases rooted with
  | false =>
      refine ⟨ts, ?_, .plain hspells, hless⟩
      rw [Path.toText, String.toList_append, Text.toList_intercalate]
      exact hlexed
  | true =>
      obtain ⟨joint, hcolons⟩ := lexed_colons hlexed
      have hspelled : SpellsPath ⟨true, names⟩ (.punct ':' true :: .punct ':' joint :: ts) us :=
        .rooted hspells
      refine ⟨_, ?_, hspelled, ?_⟩
      · rw [Path.toText, if_pos rfl, String.toList_append, Text.toList_intercalate]
        exact hcolons
      · simp only [List.length_cons]
        omega

/-! ## Texts of types -/

/-- A written type is read as its expression, whatever follows it. As many levels of nesting are
    enough as it has tokens. -/
def ReadsBack (w : WrittenType) : Prop :=
  ∀ cs us, Continues cs us → ∃ ts levels, Lexed (w.text.toList ++ cs) ts ∧ TypeAhead ts ∧
    us.length + levels < ts.length ∧
    ∀ depth, 2 * levels ≤ depth → Reads (Grammar.type (rules depth) true) ts w.expr us

theorem reads_arguments {args : List WrittenType} (hne : args ≠ []) (h : ∀ a ∈ args, ReadsBack a)
    (hlexed : Lexed cs us) :
    ∃ ts levels, Lexed ((", ".intercalate (args.map WrittenType.text)).toList ++ '>' :: cs) ts ∧
      us.length + levels < ts.length ∧
      ∀ depth, 2 * levels ≤ depth →
        SpellsArguments (rules (depth + 2)) (args.map fun a => .type a.expr) ts us := by
  rw [Text.toList_intercalate]
  induction args with
  | nil => exact absurd rfl hne
  | cons a rest ih =>
      cases rest with
      | nil =>
          obtain ⟨ts, levels, hts, hahead, hless, hreads⟩ :=
            h a List.mem_cons_self _ _ (.closing hlexed)
          rw [List.length_cons] at hless
          refine ⟨ts, levels, hts, by omega, fun depth hdepth => ?_⟩
          exact .last hahead (Grammar.reads_argument hahead .closing (hreads depth hdepth)) (by omega)
      | cons b others =>
          obtain ⟨vs, levels', hvs, hless', hmore⟩ := ih (List.cons_ne_nil _ _)
            fun c hc => h c (List.mem_cons_of_mem a hc)
          obtain ⟨ts, levels, hts, hahead, hless, hreads⟩ :=
            h a List.mem_cons_self _ _ (.comma hvs.blank)
          rw [List.length_cons] at hless
          refine ⟨ts, levels + levels', ?_, by omega, fun depth hdepth => ?_⟩
          · rw [List.map_cons, List.map_cons, List.map_cons, List.map_cons, Text.join,
              List.append_assoc, List.append_assoc]
            exact hts
          · refine .more hahead (Grammar.reads_argument hahead .comma (hreads depth (by omega)))
              (by omega) (hmore depth (by omega))

theorem readsBack_of_legible {w : WrittenType} (hw : w.Legible) : ReadsBack w := by
  induction hw with
  | @mk w htext hpath htakes hother hargs ih =>
      intro cs us hcs
      rw [htext, String.toList_append, List.append_assoc, w.expr_eq]
      have htakes' : (w.arguments.map fun a => Argument.type a.expr) ≠ [] →
          ∃ name, w.path.names.getLast? = some name ∧ TakesArguments name :=
        fun hne => htakes fun heq => hne (by rw [heq]; rfl)
      have hother' : w.path = .ofName "Self" →
          (w.arguments.map fun a => Argument.type a.expr) ≠ [] := by
        intro hself heq
        exact hother hself (List.map_eq_nil_iff.mp heq)
      cases hempty : w.arguments with
      | nil =>
          obtain ⟨ts, hts, hspells, hless⟩ := lexed_path hpath hcs.ends hcs.lexed
          refine ⟨ts, 0, hts, ?_, hless, fun depth _ => ?_⟩
          · exact hspells.typeAhead hpath (hcs.follows.isOp_eq_false rfl (by decide))
          · rw [hempty] at htakes' hother'
            exact Grammar.reads_type hpath hspells .nothing hcs.follows htakes' hother'
      | cons a rest =>
          have hne : w.arguments ≠ [] := by
            rw [hempty]
            exact List.cons_ne_nil _ _
          obtain ⟨vs, levels, hvs, hless, hspellsArgs⟩ := reads_arguments hne ih hcs.lexed
          have hangle := hvs.punct (c := '<') (by decide)
          obtain ⟨ts, hts, hspells, hless'⟩ :=
            lexed_path hpath (ends_of_typePunctuation (by decide)) hangle
          rw [List.length_cons] at hless'
          refine ⟨ts, levels + 1, ?_, ?_, by omega, fun depth hdepth => ?_⟩
          · have hbracketed : (Shape.bracketed ((w.arguments).map WrittenType.text)).toList ++ cs =
                '<' :: ((", ".intercalate (w.arguments.map WrittenType.text)).toList ++ '>' :: cs) := by
              rw [Shape.bracketed, if_neg (by simpa using hne)]
              simp [String.toList_append]
            rw [← hempty, hbracketed]
            exact hts
          · exact hspells.typeAhead hpath (isOp_single rfl (by decide) _ _)
          · obtain ⟨depth, rfl⟩ : ∃ d, depth = d + 2 := ⟨depth - 2, by omega⟩
            rw [← hempty]
            exact Grammar.reads_type hpath hspells (.angles (hspellsArgs depth (by omega)))
              hcs.follows htakes' hother'

/-- The text of a path begins with no encoding mark. -/
theorem ne_mark_of_legible {p : Path} (hp : p.Legible) (cs : List Char) :
    (p.toText.toList ++ cs).head? ≠ some Token.byteOrderMark := by
  obtain ⟨rooted, names⟩ := p
  cases rooted with
  | true =>
      rw [Path.toText, if_pos rfl, String.toList_append]
      intro heq
      exact absurd (Option.some.inj heq) (by decide)
  | false =>
      obtain ⟨name, rest, rfl⟩ := List.exists_cons_of_ne_nil hp.nonempty
      obtain ⟨c, tail, hname, hc⟩ := (hp.names name List.mem_cons_self).word.cons
      have hmark : c ≠ Token.byteOrderMark := ne_of_start hc isIdentifierStart_mark
      have hhead : ∃ more, (Path.toText ⟨false, name :: rest⟩).toList = c :: more := by
        rw [Path.toText, String.toList_append, Text.toList_intercalate, List.map_cons, hname]
        cases rest <;> exact ⟨_, rfl⟩
      obtain ⟨more, hmore⟩ := hhead
      rw [hmore]
      exact fun heq => hmark (Option.some.inj heq)

/-- **A written type is read as its expression.** -/
theorem typeOfText_written {w : WrittenType} (hw : w.Legible) :
    ∃ written, typeOfText w.text = some (w.expr, written) := by
  obtain ⟨ts, levels, hlexed, -, hless, hreads⟩ := readsBack_of_legible hw [] [] .nothing
  rw [List.append_nil] at hlexed
  have hmark : w.text.toList.head? ≠ some Token.byteOrderMark := by
    cases hw with
    | mk htext hpath =>
        rw [htext, String.toList_append]
        exact ne_mark_of_legible hpath _
  have hdepth : 2 * levels ≤ 8 * Token.sizeAll ts + 15 := by
    have hsize := Token.length_le_sizeAll ts
    rw [List.length_nil] at hless
    omega
  have hrule : Reads ((Grammar.rulesFor ts).type true) ts w.expr [] := hreads _ hdepth
  obtain ⟨written, hrecorded⟩ := hrule.recorded
  obtain ⟨_, hread⟩ := hrecorded []
  refine ⟨written, ?_⟩
  rw [typeOfText, Grammar.readText, hlexed.ofChars hmark]
  show Reader.readAll (Reader.recorded ((Grammar.rulesFor ts).type true)) ts =
    some (w.expr, written)
  rw [Reader.readAll, hread]
  rfl

end

end ObservableStore
