import ObservableStore.Derive
import ObservableStore.Proofs.Outcome
import ObservableStore.Proofs.Wrapper.Tokens

/-!
# `Proofs.Derive` — when a wrapper is derived

Deriving fails for three reasons, the first one that applies: an attribute `flowstore` that is not well
formed, a declaration that has no description, and a path of the runtime crate that makes a text
without tokens. The first reason is reported for the first attribute that is not well formed, and in
it for the first argument (`FirstOffence`). The third one needs a path that is given and is no
path: with identifiers joined by pairs of colons, or no path at all, the text of every described
declaration has tokens (`ofText_emit`, with `Root.spelled_of_describe`).
-/

namespace ObservableStore.Derive

open Source (Attribute Path)

/-! ## What is wrong with attributes -/

/-- The path that an argument `crate = "path"` gives; another argument gives none. -/
def given? (argument : Attribute) : Option String :=
  match argument.content with
  | .value (some literal) =>
    if argument.path = .ofName "crate" then some (Text.StringLiteral.valueOf literal) else none
  | _ => none

/-- An argument with another name than `crate`, or without a value. -/
def IsUnknown (argument : Attribute) : Prop := ∀ literal, argument ≠ ⟨.ofName "crate", .value literal⟩

/-- What is reported for an argument that gives no path. -/
inductive ArgumentOffends (argument : Attribute) : DeriveError → Prop where
  | notString (h : argument = ⟨.ofName "crate", .value none⟩) : ArgumentOffends argument .notString
  | unknown (h : IsUnknown argument) : ArgumentOffends argument .unknownArgument

/-- The first member of a list that is not good offends with `e`. -/
def FirstOffence {α : Type} (Good : α → Prop) (Offends : α → DeriveError → Prop) (as : List α)
    (e : DeriveError) : Prop :=
  ∃ before bad behind, as = before ++ bad :: behind ∧ (∀ a ∈ before, Good a) ∧ Offends bad e

/-- An argument that gives a path. -/
def Gives (argument : Attribute) : Prop := ∃ path, given? argument = some path

/-- An attribute with a list of arguments that all give paths. -/
def WellFormed (a : Attribute) : Prop :=
  ∃ arguments, argumentsOf a = some arguments ∧ ∀ argument ∈ arguments, Gives argument

/-- What is reported for an attribute that is not well formed: its list before its arguments. -/
inductive AttributeOffends (a : Attribute) : DeriveError → Prop where
  | list (h : argumentsOf a = none) : AttributeOffends a .attribute
  | argument {arguments : List Attribute} {e : DeriveError} (h : argumentsOf a = some arguments)
      (hfirst : FirstOffence Gives ArgumentOffends arguments e) : AttributeOffends a e

/-- The attributes that say how a wrapper is derived, in order. -/
def settings (as : List Attribute) : List Attribute :=
  as.filter fun a => a.path.isName attributeName

/-- All paths that attributes give, in order. -/
def givenPaths (as : List Attribute) : List String :=
  (settings as).flatMap fun a => ((argumentsOf a).getD []).filterMap given?

/-! ## The path of the runtime crate -/

section

variable {argument : Attribute} {as : List Attribute} {e : DeriveError} {before found : Option String}

theorem isName_iff {p : Path} {n : String} : p.isName n = true ↔ p = .ofName n := by
  obtain ⟨rooted, names⟩ := p
  simp [Path.isName, Path.ofName]

theorem firstOffence_cons {α : Type} {Good : α → Prop} {Offends : α → DeriveError → Prop} {a : α}
    {as : List α} : FirstOffence Good Offends (a :: as) e ↔
      Offends a e ∨ (Good a ∧ FirstOffence Good Offends as e) := by
  constructor
  · rintro ⟨_ | ⟨_, before⟩, bad, behind, heq, hgood, hbad⟩
    · obtain ⟨rfl, rfl⟩ := List.cons.inj heq
      exact Or.inl hbad
    · obtain ⟨rfl, rfl⟩ := List.cons.inj heq
      obtain ⟨ha, hbefore⟩ := List.forall_mem_cons.mp hgood
      exact Or.inr ⟨ha, before, bad, behind, rfl, hbefore, hbad⟩
  · rintro (hbad | ⟨ha, before, bad, behind, rfl, hbefore, hbad⟩)
    · exact ⟨[], a, as, rfl, (fun x hx => by cases hx), hbad⟩
    · exact ⟨a :: before, bad, behind, rfl, List.forall_mem_cons.mpr ⟨ha, hbefore⟩, hbad⟩

theorem not_firstOffence_nil {α : Type} {Good : α → Prop} {Offends : α → DeriveError → Prop} :
    ¬ FirstOffence Good Offends [] e := by
  rintro ⟨before, bad, behind, heq, -⟩
  exact absurd heq.symm (List.append_ne_nil_of_right_ne_nil _ (List.cons_ne_nil _ _))

theorem argument_cases (argument : Attribute) :
    (∃ literal, argument = ⟨.ofName "crate", .value literal⟩) ∨ IsUnknown argument := by
  by_cases h : ∃ literal, argument = ⟨.ofName "crate", .value literal⟩
  · exact Or.inl h
  · exact Or.inr fun literal heq => h ⟨literal, heq⟩

theorem pathOf_unknown (h : IsUnknown argument) : pathOf argument = .error .unknownArgument := by
  obtain ⟨name, content⟩ := argument
  cases content with
  | value literal =>
      have hname : ¬ name.isName "crate" = true := fun hname =>
        h literal (by rw [isName_iff.mp hname])
      exact if_neg hname
  | bare => rfl
  | list body => rfl

theorem given?_unknown (h : IsUnknown argument) : given? argument = none := by
  obtain ⟨name, content⟩ := argument
  rcases content with _ | _ | (_ | literal)
  · rfl
  · rfl
  · rfl
  · exact if_neg fun hname => h (some literal) (congrArg (Attribute.mk · _) hname)

theorem pathOf_eq_ok {path : String} : pathOf argument = .ok path ↔ given? argument = some path := by
  rcases argument_cases argument with ⟨_ | literal, rfl⟩ | hunknown
  · constructor <;> intro h <;> cases h
  · exact ⟨fun h => congrArg some (Except.ok.inj h), fun h => congrArg Except.ok (Option.some.inj h)⟩
  · rw [pathOf_unknown hunknown, given?_unknown hunknown]
    constructor <;> intro h <;> cases h

theorem pathOf_eq_error : pathOf argument = .error e ↔ ArgumentOffends argument e := by
  rcases argument_cases argument with ⟨_ | literal, rfl⟩ | hunknown
  · constructor
    · intro h
      obtain rfl : DeriveError.notString = e := Except.error.inj h
      exact .notString rfl
    · rintro (- | hne)
      · rfl
      · exact absurd rfl (hne none)
  · constructor
    · intro h
      cases h
    · rintro (heq | hne)
      · cases heq
      · exact absurd rfl (hne (some literal))
  · rw [pathOf_unknown hunknown]
    constructor
    · intro h
      obtain rfl := Except.error.inj h
      exact .unknown hunknown
    · rintro (heq | -)
      · exact absurd heq (hunknown none)
      · rfl

theorem lastPath_eq_ok : lastPath before as = .ok found ↔
    (∀ a ∈ as, Gives a) ∧ found = (as.filterMap given?).getLast?.or before := by
  induction as generalizing before with
  | nil => simp [lastPath, eq_comm]
  | cons a as ih =>
      have hlast {path : String} (hgiven : given? a = some path) :
          ((a :: as).filterMap given?).getLast?.or before =
            (as.filterMap given?).getLast?.or (some path) := by
        rw [List.filterMap_cons_some hgiven, List.getLast?_cons]
        cases (as.filterMap given?).getLast? <;> rfl
      rw [lastPath, bind_eq_ok, List.forall_mem_cons]
      constructor
      · rintro ⟨path, hpath, hrest⟩
        obtain ⟨hall, rfl⟩ := ih.mp hrest
        have hgiven := pathOf_eq_ok.mp hpath
        exact ⟨⟨⟨path, hgiven⟩, hall⟩, (hlast hgiven).symm⟩
      · rintro ⟨⟨⟨path, hgiven⟩, hall⟩, rfl⟩
        exact ⟨path, pathOf_eq_ok.mpr hgiven, ih.mpr ⟨hall, hlast hgiven⟩⟩

theorem lastPath_eq_error : lastPath before as = .error e ↔
    FirstOffence Gives ArgumentOffends as e := by
  induction as generalizing before with
  | nil => exact ⟨(fun h => by cases h), fun h => absurd h not_firstOffence_nil⟩
  | cons a as ih =>
      rw [lastPath, bind_eq_error, firstOffence_cons, pathOf_eq_error]
      refine or_congr_right ?_
      constructor
      · rintro ⟨path, hpath, hrest⟩
        exact ⟨⟨path, pathOf_eq_ok.mp hpath⟩, ih.mp hrest⟩
      · rintro ⟨⟨path, hgiven⟩, hrest⟩
        exact ⟨path, pathOf_eq_ok.mpr hgiven, ih.mpr hrest⟩

/-! ## Attributes -/

theorem settings_cons_of_name {a : Attribute} (h : a.path.isName attributeName = true) :
    settings (a :: as) = a :: settings as := List.filter_cons_of_pos h

theorem settings_cons_of_other {a : Attribute} (h : ¬ a.path.isName attributeName = true) :
    settings (a :: as) = settings as := List.filter_cons_of_neg h

theorem runtimePathFrom_eq_ok : runtimePathFrom before as = .ok found ↔
    (∀ a ∈ settings as, WellFormed a) ∧ found = (givenPaths as).getLast?.or before := by
  induction as generalizing before with
  | nil => simp [runtimePathFrom, settings, givenPaths, eq_comm]
  | cons a as ih =>
      rw [runtimePathFrom]
      by_cases hname : a.path.isName attributeName = true
      · rw [if_pos hname, settings_cons_of_name hname, List.forall_mem_cons]
        cases hlist : argumentsOf a with
        | none =>
            constructor
            · intro h
              cases h
            · rintro ⟨⟨⟨arguments, hsome, -⟩, -⟩, -⟩
              rw [hlist] at hsome
              cases hsome
        | some arguments =>
            have hpaths : (givenPaths (a :: as)).getLast?.or before =
                (givenPaths as).getLast?.or ((arguments.filterMap given?).getLast?.or before) := by
              rw [givenPaths, settings_cons_of_name hname, List.flatMap_cons, List.getLast?_append,
                Option.or_assoc, hlist]
              rfl
            have hwell : WellFormed a ↔ ∀ argument ∈ arguments, Gives argument := by
              refine ⟨?_, fun h => ⟨arguments, hlist, h⟩⟩
              rintro ⟨found, hfound, hall⟩
              obtain rfl := Option.some.inj (hlist.symm.trans hfound)
              exact hall
            rw [hpaths, hwell]
            simp only [bind_eq_ok, lastPath_eq_ok, ih]
            constructor
            · rintro ⟨path, ⟨hall, rfl⟩, hrest, rfl⟩
              exact ⟨⟨hall, hrest⟩, rfl⟩
            · rintro ⟨⟨hall, hrest⟩, rfl⟩
              exact ⟨_, ⟨hall, rfl⟩, hrest, rfl⟩
      · rw [if_neg hname, ih, givenPaths, givenPaths, settings_cons_of_other hname]

theorem runtimePathFrom_eq_error : runtimePathFrom before as = .error e ↔
    FirstOffence WellFormed AttributeOffends (settings as) e := by
  induction as generalizing before with
  | nil => exact ⟨(fun h => by cases h), fun h => absurd h not_firstOffence_nil⟩
  | cons a as ih =>
      rw [runtimePathFrom]
      by_cases hname : a.path.isName attributeName = true
      · rw [if_pos hname, settings_cons_of_name hname, firstOffence_cons]
        cases hlist : argumentsOf a with
        | none =>
            constructor
            · intro h
              obtain rfl := Except.error.inj h
              exact Or.inl (.list hlist)
            · rintro ((- | ⟨hsome, -⟩) | ⟨⟨arguments, hsome, -⟩, -⟩)
              · rfl
              · rw [hlist] at hsome
                cases hsome
              · rw [hlist] at hsome
                cases hsome
        | some arguments =>
            simp only [bind_eq_error, lastPath_eq_ok, lastPath_eq_error, ih]
            constructor
            · rintro (hfirst | ⟨path, ⟨hall, -⟩, hrest⟩)
              · exact Or.inl (.argument hlist hfirst)
              · exact Or.inr ⟨⟨arguments, hlist, hall⟩, hrest⟩
            · rintro ((hnone | ⟨hsome, hfirst⟩) | ⟨⟨found, hsome, hall⟩, hrest⟩)
              · rw [hlist] at hnone
                cases hnone
              · obtain rfl := Option.some.inj (hlist.symm.trans hsome)
                exact Or.inl hfirst
              · obtain rfl := Option.some.inj (hlist.symm.trans hsome)
                exact Or.inr ⟨_, ⟨hall, rfl⟩, hrest⟩
      · rw [if_neg hname, ih, settings_cons_of_other hname]

end

/-! ## The outcome -/

section

variable {d : Source.Declaration} {e : DeriveError}

theorem runtimePath_eq_ok {found : Option String} : runtimePath d = .ok found ↔
    (∀ a ∈ settings d.attributes, WellFormed a) ∧ found = (givenPaths d.attributes).getLast? := by
  rw [runtimePath, runtimePathFrom_eq_ok, Option.or_none]

theorem runtimePath_eq_error : runtimePath d = .error e ↔
    FirstOffence WellFormed AttributeOffends (settings d.attributes) e :=
  runtimePathFrom_eq_error

/-- Without a path the text is written with one that is made of identifiers. -/
theorem isPathText_optionsFor {path : Option String} (h : ∀ p, path = some p → IsPathText p) :
    IsPathText (optionsFor path).runtimePath := by
  cases path with
  | some p => exact h p rfl
  | none => exact isPathText_default

/-- A malformed attribute is reported before the declaration is looked at. -/
theorem expand_of_offence (hpath : runtimePath d = .error e) : expand d = .error e := by
  unfold expand unit
  rw [hpath]
  rfl

theorem expand_eq {found : Option String} (hpath : runtimePath d = .ok found) : expand d =
    match (Root.alone d).describe with
    | .ok desc =>
      match Token.ofText (desc.emit (optionsFor found)).source with
      | some ts => .ok ts
      | none => .error .notTokens
    | .error f => .error (.failure f) := by
  unfold expand unit
  rw [hpath]
  cases (Root.alone d).describe <;> rfl

/-- With well-formed attributes it is the declaration or the text that fails. -/
theorem expand_eq_error {found : Option String} (hpath : runtimePath d = .ok found) :
    expand d = .error e ↔ (∃ f, (Root.alone d).describe = .error f ∧ e = .failure f) ∨
      ∃ desc, (Root.alone d).describe = .ok desc ∧
        Token.ofText (desc.emit (optionsFor found)).source = none ∧ e = .notTokens := by
  rw [expand_eq hpath]
  cases (Root.alone d).describe with
  | error f => simp [eq_comm]
  | ok desc =>
      cases htokens : Token.ofText (desc.emit (optionsFor found)).source with
      | some ts => simp [htokens]
      | none => simp [htokens, eq_comm]

theorem expand_eq_ok {found : Option String} (hpath : runtimePath d = .ok found) {ts : List Token} :
    expand d = .ok ts ↔ ∃ desc, (Root.alone d).describe = .ok desc ∧
      Token.ofText (desc.emit (optionsFor found)).source = some ts := by
  rw [expand_eq hpath]
  cases (Root.alone d).describe with
  | error f => simp
  | ok desc =>
      cases htokens : Token.ofText (desc.emit (optionsFor found)).source with
      | some us => simp [htokens]
      | none => simp [htokens]

/-- **When deriving fails, and with what.** It fails for the first attribute that is not well formed;
    else with the reason for which the declaration has no description; else when the path that is
    given last makes a text without tokens. Otherwise the wrapper's tokens are those of the text with
    that path. Without a path, or with one of identifiers joined by pairs of colons, the text of every
    described declaration has tokens, so all its groups close. -/
theorem expand_outcome {text : String} (htext : Source.declarationOfText text = some d) :
    (∀ e, expand d = .error e ↔
      FirstOffence WellFormed AttributeOffends (settings d.attributes) e ∨
      ((∀ a ∈ settings d.attributes, WellFormed a) ∧
        ((∃ f, (Root.alone d).describe = .error f ∧ e = .failure f) ∨
        (∃ desc path, (Root.alone d).describe = .ok desc ∧
          (givenPaths d.attributes).getLast? = some path ∧
          Token.ofText (desc.emit (optionsFor (some path))).source = none ∧ e = .notTokens)))) ∧
    (∀ ts, expand d = .ok ts ↔
      (∀ a ∈ settings d.attributes, WellFormed a) ∧ ∃ desc, (Root.alone d).describe = .ok desc ∧
        Token.ofText (desc.emit (optionsFor (givenPaths d.attributes).getLast?)).source = some ts) ∧
    (∀ desc, (Root.alone d).describe = .ok desc →
      ∀ path : Option String, (∀ p, path = some p → IsPathText p) →
        ∃ ts, Token.ofText (desc.emit (optionsFor path)).source = some ts) := by
  have hlexes : ∀ desc, (Root.alone d).describe = .ok desc →
      ∀ path : Option String, (∀ p, path = some p → IsPathText p) →
        ∃ ts, Token.ofText (desc.emit (optionsFor path)).source = some ts := by
    intro desc hdesc path hpath
    exact ofText_emit (Root.spelled_of_describe htext hdesc) (isPathText_optionsFor hpath)
  cases hpath : runtimePath d with
  | error first =>
      have hfirst := runtimePath_eq_error.mp hpath
      have hnot : ¬ ∀ a ∈ settings d.attributes, WellFormed a := by
        intro hall
        rw [runtimePath_eq_ok.mpr ⟨hall, rfl⟩] at hpath
        cases hpath
      refine ⟨fun e => ?_, fun ts => ?_, hlexes⟩
      · rw [expand_of_offence hpath, ← runtimePath_eq_error, hpath]
        constructor
        · intro h
          exact Or.inl (congrArg Except.error (Except.error.inj h))
        · rintro (h | ⟨hall, -⟩)
          · exact congrArg Except.error (Except.error.inj h)
          · exact absurd hall hnot
      · rw [expand_of_offence hpath]
        exact ⟨(fun h => by cases h), fun h => absurd h.1 hnot⟩
  | ok found =>
      obtain ⟨hall, rfl⟩ := runtimePath_eq_ok.mp hpath
      refine ⟨fun e => ?_, fun ts => ?_, hlexes⟩
      · have hnone : ¬ FirstOffence WellFormed AttributeOffends (settings d.attributes) e := by
          rw [← runtimePath_eq_error, hpath]
          intro h
          cases h
        rw [expand_eq_error hpath, or_iff_right hnone, and_iff_right hall]
        refine or_congr_right ⟨?_, ?_⟩
        · rintro ⟨desc, hdesc, hnot, rfl⟩
          cases hlast : (givenPaths d.attributes).getLast? with
          | some path => exact ⟨desc, path, hdesc, rfl, hlast ▸ hnot, rfl⟩
          | none =>
              -- without a path the text has tokens
              obtain ⟨ts, hts⟩ := hlexes desc hdesc none fun p hp => by cases hp
              rw [hlast, hts] at hnot
              cases hnot
        · rintro ⟨desc, path, hdesc, hlast, hnot, rfl⟩
          exact ⟨desc, hdesc, hlast.symm ▸ hnot, rfl⟩
      · rw [expand_eq_ok hpath, and_iff_right hall]

/-- A pipe with a raw field and two paths of the runtime crate. -/
def pipeText : String :=
  "#[flowstore(crate = \"a\", crate = r\"::b::c\")] pub(in a::b) struct Pipe \x7b r#type: Vec<u8> \x7d"

/-- Whether the attributes are well formed and give `a` and then `::b::c`, and the declaration has a
    description. -/
def givesTwoPaths (d : Source.Declaration) : Bool :=
  givenPaths d.attributes == ["a", "::b::c"] && (runtimePath d).toBool &&
    (Root.alone d).describe.toBool

theorem expand_outcome_pipe : ∃ d desc ts, Source.declarationOfText pipeText = some d ∧
    givenPaths d.attributes = ["a", "::b::c"] ∧ (Root.alone d).describe = .ok desc ∧
    expand d = .ok ts ∧
    Token.ofText (desc.emit (optionsFor (some "::b::c"))).source = some ts := by
  have hread : (Source.declarationOfText pipeText).any givesTwoPaths = true := by decide +kernel
  obtain ⟨d, htext, hread⟩ := (Option.any_eq_true _ _).mp hread
  simp only [givesTwoPaths, Bool.and_eq_true, beq_iff_eq] at hread
  obtain ⟨⟨hpaths, hpath⟩, hdescribe⟩ := hread
  obtain ⟨found, hpath⟩ : ∃ found, runtimePath d = .ok found := by
    cases hp : runtimePath d with
    | ok found => exact ⟨found, rfl⟩
    | error e =>
        rw [hp] at hpath
        cases hpath
  obtain ⟨desc, hdesc⟩ : ∃ desc, (Root.alone d).describe = .ok desc := by
    cases hd : (Root.alone d).describe with
    | ok desc => exact ⟨desc, rfl⟩
    | error f =>
        rw [hd] at hdescribe
        cases hdescribe
  have hcrate : IsPathText "::b::c" := by
    refine ⟨⟨true, ["b", "c"]⟩, ⟨List.cons_ne_nil _ _, fun n hn => ?_⟩, by decide⟩
    have hall : ∀ n ∈ ["b", "c"], Text.isIdentifierText n.toList = true := by decide
    exact Lexeme.isWord_iff.mpr (Or.inl (hall n hn))
  obtain ⟨-, hok, hlexes⟩ := expand_outcome htext
  obtain ⟨ts, hts⟩ := hlexes desc hdesc (some "::b::c") fun p hp => by
    obtain rfl := Option.some.inj hp
    exact hcrate
  have hlast : (givenPaths d.attributes).getLast? = some "::b::c" := by
    rw [hpaths]
    rfl
  refine ⟨d, desc, ts, htext, hpaths, hdesc, ?_, hts⟩
  exact (hok ts).mpr ⟨(runtimePath_eq_ok.mp hpath).1, desc, hdesc, hlast ▸ hts⟩

end

end ObservableStore.Derive
