import Mathlib.Data.List.Nodup
import Mathlib.Data.List.Perm.Basic
import ObservableStore.Proofs.Describe
import ObservableStore.Text.Identifier
import ObservableStore.Wrapper.Basic

/-!
# `Proofs.Wrapper.MethodNames` — when the methods of a wrapper have different names

The methods of a wrapper are the accessor and two mutators for every field: one has the field's
name, the other one the field's awaiting name. Two names are the same identifier when they differ in
raw marks only, so what counts is the bare name (`bareName`). Bare names are compared character by
character; texts that have one normal form (NFC) but different characters count as different.

The names of fields are compared with those of the other methods as they are written, before a
wrapper is described (`Root.fieldNames_free`). Among fields without a raw mark this keeps all
methods apart. A field with a raw mark has passed the comparison whatever its bare name is, so it
can meet the accessor or an awaiting mutator (`raw_accessor_collides`). `method_names_distinct` says
that nothing else meets.

The names are those in the written code: `Code.methodsOf` reads them off.
-/

namespace ObservableStore

/-! ## Identifiers -/

/-- A name without the raw marks in front of it. It is not brought into a normal form. -/
def bareName (name : String) : String := String.ofList (stripRawMarks name.toList)

/-- A name is an identifier, behind a raw mark or not. -/
def IsIdentifier (name : String) : Prop :=
  Text.isIdentifierText (stripRawMarks name.toList) = true

instance : DecidablePred IsIdentifier := fun _ => inferInstanceAs (Decidable (_ = true))

theorem mem_stripRawMarks {c : Char} {cs : List Char} (h : c ∈ cs) :
    c ∈ stripRawMarks cs ∨ c = 'r' ∨ c = '#' := by
  fun_induction stripRawMarks cs with
  | case1 rest ih =>
      rcases List.mem_cons.mp h with rfl | h
      · exact Or.inr (Or.inl rfl)
      rcases List.mem_cons.mp h with rfl | h
      · exact Or.inr (Or.inr rfl)
      · exact ih h
  | case2 cs _ => exact Or.inl h

theorem stripRawMarks_suffix (cs : List Char) : stripRawMarks cs <:+ cs := by
  fun_induction stripRawMarks cs with
  | case1 rest ih => exact ih.trans (List.suffix_append ['r', '#'] rest)
  | case2 cs _ => exact List.suffix_rfl

/-- A suffix that neither is marked nor ends a mark stays behind the bare name. -/
theorem stripRawMarks_append {suffix : List Char} (hbare : stripRawMarks suffix = suffix)
    (hhead : suffix.head? ≠ some '#') (cs : List Char) :
    stripRawMarks (cs ++ suffix) = stripRawMarks cs ++ suffix := by
  fun_induction stripRawMarks cs with
  | case1 rest ih => exact ih
  | case2 cs hunmarked =>
      -- a mark would have to begin in the name and end in the suffix
      rcases cs with _ | ⟨c, _ | ⟨d, rest⟩⟩
      · exact hbare
      · rw [List.cons_append, List.nil_append, stripRawMarks]
        intro rest' hmarked
        exact hhead (congrArg List.head? (List.cons.inj hmarked).2)
      · rw [List.cons_append, List.cons_append, stripRawMarks]
        intro rest' hmarked
        simp only [List.cons.injEq] at hmarked
        obtain ⟨rfl, rfl, -⟩ := hmarked
        exact hunmarked rest rfl

theorem stripRawMarks_stripRawMarks (cs : List Char) :
    stripRawMarks (stripRawMarks cs) = stripRawMarks cs := by
  fun_induction stripRawMarks cs with
  | case1 rest ih => exact ih
  | case2 cs hunmarked => exact stripRawMarks.eq_2 cs hunmarked

/-- An awaiting name has no raw mark. -/
theorem stripRawMarks_awaiting (cs : List Char) :
    stripRawMarks (stripRawMarks cs ++ "_with".toList) = stripRawMarks cs ++ "_with".toList := by
  rw [stripRawMarks_append (by decide) (by decide), stripRawMarks_stripRawMarks]

theorem awaitingMutatorName_eq (name : String) :
    awaitingMutatorName name = bareName name ++ "_with" := rfl

@[simp] theorem bareName_awaitingMutatorName (name : String) :
    bareName (awaitingMutatorName name) = awaitingMutatorName name := by
  have h := stripRawMarks_awaiting name.toList
  apply String.toList_inj.mp
  simpa [bareName, awaitingMutatorName] using h

/-- No awaiting name is the accessor's. -/
theorem awaitingMutatorName_ne_accessor (name : String) :
    awaitingMutatorName name ≠ Wrapper.accessor := by
  intro h
  have hlen := congrArg String.length h
  have haccessor : Wrapper.accessor.length = 4 := rfl
  have hsuffix : "_with".length = 5 := rfl
  rw [awaitingMutatorName_eq, String.length_append, haccessor, hsuffix] at hlen
  omega

/-! ## The names in the code -/

namespace Code

/-- The name that stands in a text behind some words, up to a parenthesis or an angle bracket. -/
def nameBehind? (words text : List Char) : Option String :=
  if words.isPrefixOf text then
    some (String.ofList ((text.drop words.length).takeWhile fun c => c != '(' && c != '<'))
  else none

/-- The name of the method that begins in a line. -/
def methodIn? (line : String) : Option String :=
  (nameBehind? "pub fn ".toList line.toList).or (nameBehind? "pub async fn ".toList line.toList)

/-- The name of the method that begins with a piece of code. -/
def method? : Code → Option String
  | .line text => methodIn? text
  | .blank => none
  | .block opening _ _ => methodIn? opening

/-- The names of the methods that a piece of code gives a type. -/
def methodsIn (type : String) : Code → List String
  | .block opening body _ =>
    if opening = "impl " ++ type ++ " \x7b" then body.filterMap method? else []
  | _ => []

/-- The names of the methods that code gives a type, in order. -/
def methodsOf (type : String) (cs : List Code) : List String :=
  cs.flatMap (methodsIn type)

end Code

/-- A name that ends where the code goes on behind it. -/
def IsWord (name : String) : Prop := ∀ c ∈ name.toList, (c != '(' && c != '<') = true

theorem IsIdentifier.isWord {name : String} (h : IsIdentifier name) : IsWord name := by
  have hcontinue : ∀ c ∈ stripRawMarks name.toList, Text.isIdentifierContinue c = true := by
    unfold IsIdentifier at h
    intro c hc
    cases hbare : stripRawMarks name.toList with
    | nil =>
        rw [hbare] at hc
        cases hc
    | cons first rest =>
        rw [hbare] at h hc
        rw [Text.isIdentifierText, Bool.and_eq_true, List.all_eq_true] at h
        rcases List.mem_cons.mp hc with rfl | hc
        · exact Text.isIdentifierContinue_of_start h.1
        · exact h.2 c hc
  intro c hc
  rcases mem_stripRawMarks hc with hbare | rfl | rfl
  · have hc' := hcontinue c hbare
    rw [Bool.and_eq_true, bne_iff_ne, bne_iff_ne]
    constructor
    · rintro rfl
      exact absurd hc' (by decide)
    · rintro rfl
      exact absurd hc' (by decide)
  · rfl
  · rfl

theorem IsWord.awaiting {name : String} (h : IsWord name) : IsWord (awaitingMutatorName name) := by
  intro c hc
  have hsuffix : ∀ c ∈ "_with".toList, (c != '(' && c != '<') = true := by simp
  rw [awaitingMutatorName_eq, String.toList_append, bareName, String.toList_ofList] at hc
  rcases List.mem_append.mp hc with hbare | hend
  · exact h c ((stripRawMarks_suffix _).subset hbare)
  · exact hsuffix c hend

namespace Code

@[simp] theorem methodsIn_line (type text : String) : methodsIn type (.line text) = [] := rfl

@[simp] theorem methodsIn_blank (type : String) : methodsIn type .blank = [] := rfl

theorem methodsOf_append (type : String) (cs ds : List Code) :
    methodsOf type (cs ++ ds) = methodsOf type cs ++ methodsOf type ds :=
  List.flatMap_append

/-- A block gives a type no methods if its opening does not fit. -/
theorem methodsIn_block {type opening : String} (h : opening.length ≠ type.length + 7)
    (body : List Code) (closing : String) : methodsIn type (.block opening body closing) = [] := by
  refine if_neg ?_
  rintro rfl
  apply h
  have himpl : "impl ".length = 5 := rfl
  have hbrace : " \x7b".length = 2 := rfl
  rw [String.length_append, String.length_append, himpl, hbrace]
  omega

variable {name rest : String} {c : Char}

/-- No method begins in a line that does not begin with a `p`. -/
theorem methodIn?_eq_none {line : String} (h : line.toList.head? ≠ some 'p') :
    methodIn? line = none := by
  have hnone : ∀ words : List Char, words.head? = some 'p' → nameBehind? words line.toList = none := by
    intro words hwords
    refine if_neg fun hprefix => h ?_
    obtain ⟨more, hmore⟩ := List.isPrefixOf_iff_prefix.mp hprefix
    rw [← hmore, List.head?_append, hwords, Option.some_or]
  rw [methodIn?, hnone _ rfl, hnone _ rfl, Option.none_or]

/-- A name stands behind words if what follows it ends it. -/
theorem nameBehind?_words (words : List Char) (hname : IsWord name)
    (hrest : rest.toList.head? = some c) (hc : (c != '(' && c != '<') = false) :
    nameBehind? words (words ++ (name.toList ++ rest.toList)) = some name := by
  have hprefix : words.isPrefixOf (words ++ (name.toList ++ rest.toList)) = true :=
    List.isPrefixOf_iff_prefix.mpr (List.prefix_append _ _)
  obtain ⟨cs, hcs⟩ := List.head?_eq_some_iff.mp hrest
  rw [nameBehind?, if_pos hprefix, List.drop_left, hcs, List.takeWhile_append_of_pos hname,
    List.takeWhile_cons_of_neg (by simp [hc]), List.append_nil, String.ofList_toList]

theorem methodIn?_plain (hname : IsWord name) (hrest : rest.toList.head? = some c)
    (hc : (c != '(' && c != '<') = false) : methodIn? ("pub fn " ++ name ++ rest) = some name := by
  rw [methodIn?, String.toList_append, String.toList_append, List.append_assoc,
    nameBehind?_words _ hname hrest hc, Option.some_or]

theorem methodIn?_async (hname : IsWord name) (hrest : rest.toList.head? = some c)
    (hc : (c != '(' && c != '<') = false) :
    methodIn? ("pub async fn " ++ name ++ rest) = some name := by
  have hplain : nameBehind? "pub fn ".toList ("pub async fn ".toList ++ (name.toList ++ rest.toList))
      = none := by
    refine if_neg fun hprefix => ?_
    obtain ⟨more, hmore⟩ := List.isPrefixOf_iff_prefix.mp hprefix
    simp at hmore
  rw [methodIn?, String.toList_append, String.toList_append, List.append_assoc, hplain,
    nameBehind?_words _ hname hrest hc, Option.none_or]

end Code

namespace Wrapper

variable {w : Wrapper}

theorem isWord_accessor : IsWord accessor := by
  simp [IsWord, accessor]

/-- The accessor's code begins the accessor and no other method. -/
theorem methods_accessorCode (w : Wrapper) : w.accessorCode.filterMap Code.method? = [accessor] := by
  have hdoc : Code.methodIn? "/// Read-only view of the current and future states" = none :=
    Code.methodIn?_eq_none (by simp)
  have hopening : "pub fn flow(&self) -> " = "pub fn " ++ accessor ++ "(&self) -> " := rfl
  have hname : Code.methodIn? ("pub fn flow(&self) -> " ++ w.runtime ++ "::StateFlow<" ++ w.root
      ++ ">" ++ " \x7b") = some accessor := by
    rw [hopening]
    simp only [String.append_assoc]
    rw [← String.append_assoc]
    exact Code.methodIn?_plain isWord_accessor (c := '(') (by simp) rfl
  simp only [accessorCode, Code.braced, Code.method?, hdoc, hname, List.filterMap_cons,
    List.filterMap_nil]

/-- A mutator's code begins that mutator and no other method. -/
theorem methods_mutatorCode (w : Wrapper) {m : Mutator} (h : IsWord m.name) :
    (w.mutatorCode m).filterMap Code.method? = [m.name] := by
  unfold mutatorCode
  split
  · have hdoc : Code.methodIn? ("/// Like [`Self::" ++ m.field
        ++ "`], with a transform that can await") = none :=
      Code.methodIn?_eq_none (by simp)
    have hname : Code.methodIn? ("pub async fn " ++ m.name
        ++ "<F>(&self, transform: impl ::core::ops::FnOnce(" ++ m.type.text ++ ") -> F)")
        = some m.name := by
      rw [String.append_assoc, String.append_assoc]
      exact Code.methodIn?_async h (c := '<') (by simp) rfl
    have hwhere : Code.methodIn? "where" = none := Code.methodIn?_eq_none (by simp)
    have hbound : Code.methodIn? ("    F: ::core::future::Future<Output = " ++ m.type.text ++ ">,")
        = none := Code.methodIn?_eq_none (by simp)
    have hbody : Code.methodIn? "\x7b" = none := Code.methodIn?_eq_none (by simp)
    simp only [Code.method?, hdoc, hname, hwhere, hbound, hbody, List.filterMap_cons,
      List.filterMap_nil]
  · have hdoc : Code.methodIn? ("/// Replace `" ++ m.field ++ "` with `transform(" ++ m.field
        ++ ")` and publish the resulting state") = none :=
      Code.methodIn?_eq_none (by simp)
    have hname : Code.methodIn? ("pub async fn " ++ m.name
        ++ "(&self, transform: impl ::core::ops::FnOnce(" ++ m.type.text ++ ") -> "
        ++ m.type.text ++ ")" ++ " \x7b") = some m.name := by
      simp only [String.append_assoc]
      rw [← String.append_assoc]
      exact Code.methodIn?_async h (c := '(') (by simp) rfl
    simp only [Code.braced, Code.method?, hdoc, hname, List.filterMap_cons, List.filterMap_nil]

/-- The methods in the code that the wrapper's type is given. -/
theorem methods_methodsCode (h : ∀ m ∈ w.mutators, IsWord m.name) :
    Code.methodsOf w.name w.methodsCode = w.methodNames := by
  have hmutators : (w.mutators.flatMap w.mutatorCode).filterMap Code.method?
      = w.mutators.map Mutator.name := by
    rw [List.filterMap_flatMap, ← List.flatMap_pure_eq_map]
    exact List.flatMap_congr fun m hm => methods_mutatorCode w (h m hm)
  simp only [methodsCode, Code.braced, Code.methodsOf, Code.methodsIn, List.flatMap_cons,
    List.flatMap_nil, List.append_nil, if_true, List.filterMap_append, methods_accessorCode,
    hmutators]
  rfl

theorem methodsOf_header (w : Wrapper) (type : String) : Code.methodsOf type w.header = [] := by
  unfold header
  split
  · rfl
  · simp [Code.methodsOf, List.flatMap_map]

theorem methodsOf_typeCode (w : Wrapper) : Code.methodsOf w.name w.typeCode = [] := by
  have hopening : (w.modifier ++ "struct " ++ w.name ++ " \x7b").length ≠ w.name.length + 7 := by
    have hstruct : "struct ".length = 7 := rfl
    have hbrace : " \x7b".length = 2 := rfl
    simp only [String.length_append, hstruct, hbrace]
    omega
  simp only [typeCode, Code.braced, Code.methodsOf, List.flatMap_cons, List.flatMap_nil,
    Code.methodsIn_line, Code.methodsIn_blank, Code.methodsIn_block hopening, List.append_nil]

/-- The root is given methods of its own, and the conversion is no method of the type alone. -/
theorem methodsOf_constructorCode (w : Wrapper) (h : w.name = w.root ++ "Store") :
    Code.methodsOf w.name w.constructorCode = [] := by
  have hroot : ("impl " ++ w.root ++ " \x7b").length ≠ w.name.length + 7 := by
    have himpl : "impl ".length = 5 := rfl
    have hbrace : " \x7b".length = 2 := rfl
    have hsuffix : "Store".length = 5 := rfl
    simp only [h, String.length_append, himpl, hbrace, hsuffix]
    omega
  have hconversion : ("impl ::core::convert::From<" ++ w.root ++ "> for " ++ w.name
      ++ " \x7b").length ≠ w.name.length + 7 := by
    have himpl : "impl ::core::convert::From<".length = 27 := rfl
    have hfor : "> for ".length = 6 := rfl
    have hbrace : " \x7b".length = 2 := rfl
    simp only [String.length_append, himpl, hfor, hbrace]
    omega
  simp only [constructorCode, Code.braced, Code.methodsOf, List.flatMap_cons, List.flatMap_nil,
    Code.methodsIn_blank, Code.methodsIn_block hroot, Code.methodsIn_block hconversion,
    List.append_nil]

/-- **The methods that the code gives a wrapper** are its accessor and its mutators. -/
theorem methodsOf_code (h : ∀ m ∈ w.mutators, IsWord m.name) (hname : w.name = w.root ++ "Store") :
    Code.methodsOf w.name w.code = w.methodNames := by
  rw [code, Code.methodsOf_append, Code.methodsOf_append, Code.methodsOf_append, methodsOf_header,
    methodsOf_typeCode, methods_methodsCode h, methodsOf_constructorCode w hname, List.append_nil,
    List.nil_append, List.nil_append]

/-- The names of a described root's methods: the accessor's, and two for every field. -/
theorem methodNames_ofDescription (d : StoreDescription) (o : EmitOptions) :
    (ofDescription d o).methodNames = accessor ::
      (d.fields.map FieldDescription.name).flatMap fun n => [n, awaitingMutatorName n] := by
  rw [methodNames, ofDescription, List.map_flatMap, List.flatMap_map]
  rfl

end Wrapper

/-! ## Different names -/

/-- The bare names of mutators, up to their order. -/
theorem bareNames_perm (names : List String) :
    (names.map bareName ++ names.map awaitingMutatorName).Perm
      ((names.flatMap fun n => [n, awaitingMutatorName n]).map bareName) := by
  have h := List.map_append_flatMap_perm names bareName fun n => [awaitingMutatorName n]
  rw [List.map_eq_flatMap (f := awaitingMutatorName), List.map_flatMap]
  simpa using h

/-- Where the fields' bare names differ from each other, methods have different names when no field
    meets the accessor or an awaiting mutator. -/
theorem nodup_bareNames_iff {names : List String} (h : (names.map bareName).Nodup) :
    ((Wrapper.accessor :: names.flatMap fun n => [n, awaitingMutatorName n]).map bareName).Nodup ↔
      ∀ n ∈ names, bareName n ≠ Wrapper.accessor ∧
        ∀ m ∈ names, bareName n ≠ awaitingMutatorName m := by
  have hawaiting : (names.map awaitingMutatorName).Nodup := by
    have hsuffix : names.map awaitingMutatorName = (names.map bareName).map (· ++ "_with") := by
      rw [List.map_map]
      rfl
    rw [hsuffix]
    exact List.Nodup.map (fun _ _ => (String.append_left_inj _).mp) h
  have haccessor : ∀ n, awaitingMutatorName n ≠ Wrapper.accessor := awaitingMutatorName_ne_accessor
  have hbare : bareName Wrapper.accessor = Wrapper.accessor := rfl
  rw [List.map_cons, List.nodup_cons, ← (bareNames_perm names).nodup_iff,
    ← (bareNames_perm names).mem_iff, List.nodup_append, hbare]
  constructor
  · rintro ⟨hfree, -, -, hseparate⟩ n hn
    have hmem : bareName n ∈ names.map bareName := List.mem_map_of_mem hn
    refine ⟨?_, fun m hm => hseparate _ hmem _ (List.mem_map_of_mem hm)⟩
    intro heq
    exact hfree (List.mem_append_left _ (heq ▸ hmem))
  · intro hall
    refine ⟨?_, h, hawaiting, ?_⟩
    · intro hmem
      rcases List.mem_append.mp hmem with hplain | hwaits
      · obtain ⟨n, hn, heq⟩ := List.mem_map.mp hplain
        exact (hall n hn).1 heq
      · obtain ⟨n, -, heq⟩ := List.mem_map.mp hwaits
        exact haccessor n heq
    · rintro _ hplain _ hwaits
      obtain ⟨n, hn, rfl⟩ := List.mem_map.mp hplain
      obtain ⟨m, hm, rfl⟩ := List.mem_map.mp hwaits
      exact (hall n hn).2 m hm

/-- The methods in the code of a wrapper of a described root: the accessor, and two for every field. -/
theorem methodsOf_describe {r : Root} {d : StoreDescription} (o : EmitOptions)
    (hident : ∀ n ∈ r.declaration.body.fieldNames, IsIdentifier n) (h : r.describe = .ok d) :
    Code.methodsOf d.storeName (Wrapper.ofDescription d o).code = Wrapper.accessor ::
      r.declaration.body.fieldNames.flatMap fun n => [n, awaitingMutatorName n] := by
  have hnames : (Wrapper.ofDescription d o).methodNames = Wrapper.accessor ::
      r.declaration.body.fieldNames.flatMap fun n => [n, awaitingMutatorName n] := by
    rw [Wrapper.methodNames_ofDescription, Root.fieldNames_of_describe h]
  have hwords : ∀ m ∈ (Wrapper.ofDescription d o).mutators, IsWord m.name := by
    intro m hm
    have hmutator : m.name ∈ (Wrapper.ofDescription d o).mutators.map Mutator.name :=
      List.mem_map_of_mem hm
    rw [(List.cons.inj hnames).2] at hmutator
    obtain ⟨n, hn, hname⟩ := List.mem_flatMap.mp hmutator
    rcases List.mem_pair.mp hname with heq | heq
    · exact heq ▸ (hident n hn).isWord
    · exact heq ▸ (hident n hn).isWord.awaiting
  rw [← hnames]
  exact Wrapper.methodsOf_code (w := Wrapper.ofDescription d o) hwords rfl

/-- **Methods have different names** in the code of every wrapper of a described root whose fields
    are different identifiers, exactly when no field with a raw mark has the bare name of the
    accessor or of an awaiting mutator. Fields without a mark never have it. -/
theorem method_names_distinct (r : Root) (o : EmitOptions) (d : StoreDescription)
    (hident : ∀ n ∈ r.declaration.body.fieldNames, IsIdentifier n)
    (hdistinct : (r.declaration.body.fieldNames.map bareName).Nodup)
    (h : r.describe = .ok d) :
    let fields := r.declaration.body.fieldNames
    let methods := Code.methodsOf d.storeName (Wrapper.ofDescription d o).code
    (methods = Wrapper.accessor :: fields.flatMap fun n => [n, awaitingMutatorName n]) ∧
    ((methods.map bareName).Nodup ↔ ∀ n ∈ fields, bareName n ≠ n →
      bareName n ≠ Wrapper.accessor ∧ ∀ m ∈ fields, bareName n ≠ awaitingMutatorName m) := by
  intro fields methods
  have hmethods : methods = Wrapper.accessor :: fields.flatMap fun n => [n, awaitingMutatorName n] :=
    methodsOf_describe o hident h
  refine ⟨hmethods, ?_⟩
  rw [hmethods, nodup_bareNames_iff hdistinct]
  constructor
  · exact fun hall n hn _ => hall n hn
  · intro hraw n hn
    by_cases hmark : bareName n = n
    · -- the name is the written one, which was compared
      obtain ⟨hfree, hseparate⟩ := Root.fieldNames_free h hn
      rw [hmark]
      exact ⟨fun heq => hfree (by simp [Root.reservedNames, heq, Wrapper.accessor]), hseparate⟩
    · exact hraw n hn hmark

/-! ## Fields with raw marks -/

/-- A declaration with fields of a primitive type, at the root of the crate. -/
def countersRoot (name : String) (fields : List String) : Root where
  declaration := ⟨[], .none, name, false, .named (fields.map fun n => ⟨n, .path ⟨false, ["u32"]⟩ [], []⟩)⟩
  scope := .strictly .crateRoot
  origin := .detached

/-- The description of such a declaration. -/
def countersDescription (name : String) (fields : List String) : StoreDescription where
  origin := .detached
  home := .crateRoot
  root := name
  visibility := .inherited
  fields := fields.map fun n => ⟨n, .mk Prelude.primitiveNamespace "u32" []⟩

/-- A raw mark does no harm by itself: the methods of a job with a type and a count have different
    names. -/
theorem method_names_distinct_job :
    let r := countersRoot "Job" ["r#type", "count"]
    let d := countersDescription "Job" ["r#type", "count"]
    (∀ n ∈ r.declaration.body.fieldNames, IsIdentifier n) ∧
    (r.declaration.body.fieldNames.map bareName).Nodup ∧
    r.describe = .ok d ∧
    ((Code.methodsOf d.storeName (Wrapper.ofDescription d .module).code).map bareName).Nodup := by
  intro r d
  have hident : ∀ n ∈ r.declaration.body.fieldNames, IsIdentifier n := by decide
  have hdistinct : (r.declaration.body.fieldNames.map bareName).Nodup := by decide
  have hdescribe : r.describe = .ok d := rfl
  refine ⟨hident, hdistinct, hdescribe, ?_⟩
  refine (method_names_distinct r .module d hident hdistinct hdescribe).2.mpr ?_
  decide

/-- **A raw mark passes the comparison.** A pipe with the field `r#flow` is described, and its wrapper
    has two methods with the name of the accessor. -/
theorem raw_accessor_collides :
    let r := countersRoot "Pipe" ["r#flow"]
    let d := countersDescription "Pipe" ["r#flow"]
    (∀ n ∈ r.declaration.body.fieldNames, IsIdentifier n) ∧
    (r.declaration.body.fieldNames.map bareName).Nodup ∧
    r.describe = .ok d ∧
    ¬ ((Code.methodsOf d.storeName (Wrapper.ofDescription d .module).code).map bareName).Nodup := by
  intro r d
  have hident : ∀ n ∈ r.declaration.body.fieldNames, IsIdentifier n := by decide
  have hdescribe : r.describe = .ok d := rfl
  refine ⟨hident, by decide, hdescribe, ?_⟩
  rw [methodsOf_describe .module hident hdescribe]
  decide

end ObservableStore
