import ObservableStore.Proofs.Source.Legible

/-!
# `Proofs.Source.Spelled` — the other names of a declaration

The fields of a declaration that has been read have words for names, and the path of a modifier such
as `pub(in a::b)` is made of words (`spelled_of_declarationOfText`). Together with the names of types
(`legible_of_declarationOfText`) these are all names that a wrapper repeats.
-/

namespace ObservableStore.Source

open Lexeme (IsWord)

/-- A path that has names, all of them words. -/
structure Path.Spelled (p : Path) : Prop where
  nonempty : p.names ≠ []
  names : ∀ n ∈ p.names, IsWord n.toList

/-- A modifier whose path is spelled. -/
def Modifier.Spelled (m : Modifier) : Prop := ∀ p, m = .within p → p.Spelled

/-- A body whose named fields have words for names. -/
def Body.Spelled (b : Body) : Prop := ∀ fields, b = .named fields → ∀ f ∈ fields, IsWord f.name.toList

/-- A declaration whose modifier and fields are spelled. -/
structure Declaration.Spelled (d : Declaration) : Prop where
  modifier : d.modifier.Spelled
  body : d.body.Spelled

namespace Grammar

open Reader Ahead

-- the longer rules have more parts than a search for an instance goes through by default
set_option synthInstance.maxSize 4000
set_option synthInstance.maxHeartbeats 200000

variable {r : Rules} [r.Forward] {P : List Token → Prop}

/-! ## Modifiers -/

theorem yields_plainPath : Yields P Path.Spelled plainPath := by
  unfold plainPath
  refine Yields.skip fun rooted => ?_
  -- as long as no name has been read, another one is wanted
  refine Yields.bind (Q := fun found : List String × Bool =>
    (found.1 = [] → found.2 = true) ∧ ∀ n ∈ found.1, IsWord n.toList)
    (Yields.iterate ?_ ⟨fun _ => rfl, fun n hn => by cases hn⟩) ?_
  · rintro ⟨names, wantsMore⟩ ⟨-, hnames⟩
    have hdone : Yields Unknown (fun next : Option (List String × Bool) => ∀ found, next = some found →
        (found.1 = [] → found.2 = true) ∧ ∀ n ∈ found.1, IsWord n.toList)
        (pure none : Reader (Option (List String × Bool))) :=
      Yields.pure fun _ heq => by cases heq
    cases wantsMore with
    | false => exact hdone
    | true =>
        refine Yields.skip fun more => ?_
        cases more with
        | false => exact hdone
        | true =>
            refine Yields.bind Yields.anyWord fun n hn => Yields.skip fun wantsMore => Yields.pure ?_
            intro found heq
            obtain rfl := Option.some.inj heq
            exact ⟨fun hnil => absurd hnil (List.cons_ne_nil _ _), List.forall_mem_cons.mpr ⟨hn, hnames⟩⟩
  · rintro ⟨names, wantsMore⟩ ⟨hfirst, hnames⟩
    cases wantsMore with
    | true => exact Yields.refuse
    | false =>
        refine Yields.pure ⟨?_, fun n hn => hnames n (List.mem_reverse.mp hn)⟩
        intro hnil
        exact absurd (hfirst (List.reverse_eq_nil_iff.mp hnil)) Bool.false_ne_true

theorem yields_restriction : Yields P Path.Spelled restriction := by
  unfold restriction
  refine Yields.inGroup (Yields.skip fun found => ?_)
  cases found with
  | true => exact yields_plainPath
  | false =>
      refine Yields.require (Yields.bind Yields.anyWord fun w hw => Yields.pure ?_)
      exact ⟨List.cons_ne_nil _ _, fun n hn => List.mem_singleton.mp hn ▸ hw⟩

theorem yields_modifier : Yields P Modifier.Spelled modifier := by
  have hrestricted : Yields Unknown Modifier.Spelled (do
      let p ← restriction
      return .within p) := by
    refine Yields.map yields_restriction fun p hp q heq => ?_
    obtain rfl := Modifier.within.inj heq
    exact hp
  have hpub : Yields Unknown Modifier.Spelled (pure .pub) := Yields.pure fun _ heq => by cases heq
  unfold modifier
  refine Yields.skip fun marked => ?_
  cases marked with
  | false => exact Yields.pure fun _ heq => by cases heq
  | true =>
      refine Yields.skip fun next => ?_
      split
      · exact hrestricted
      · split
        · refine Yields.skip fun found => ?_
          cases found with
          | some _ => exact hrestricted
          | none => exact hpub
        · exact hpub

/-! ## Fields -/

theorem yields_fieldNames :
    Yields P (fun fields => ∀ f ∈ fields, IsWord f.name.toList) (namedFields r) := by
  suffices h : ∀ depth, Yields P (fun fields => ∀ f ∈ fields, IsWord f.name.toList)
      (fieldsWithin r depth) from ⟨fun hc hs hp => (h _).result hc hs hp⟩
  intro depth
  cases depth with
  | zero => exact Yields.refuse
  | succ depth =>
      refine Yields.inGroup (Yields.commaSeparated (Q := fun f : Field => IsWord f.name.toList) ?_)
      unfold namedField
      dsimp only
      refine Yields.skip fun _ => Yields.skip fun _ => Yields.skip fun unnamed => ?_
      -- behind the name of a field come a colon and its type
      cases unnamed with
      | true =>
          exact Yields.bind Yields.anyWord fun n hn =>
            Yields.skip fun _ => Yields.skip fun _ => Yields.pure hn
      | false =>
          exact Yields.bind Yields.name fun n hn =>
            Yields.skip fun _ => Yields.skip fun _ => Yields.pure hn.1

theorem yields_structFields : Yields P Body.Spelled (structBody r) := by
  unfold structBody
  refine Yields.skip fun constrained => Yields.skip fun parentheses => ?_
  split
  · exact Yields.skip fun _ => Yields.skip fun _ => Yields.skip fun _ =>
      Yields.pure fun _ heq => by cases heq
  refine Yields.skip fun braces => ?_
  split
  · refine Yields.map yields_fieldNames fun fields hfields fields' heq => ?_
    obtain rfl := Body.named.inj heq
    exact hfields
  · exact Yields.skip fun _ => Yields.pure fun _ heq => by cases heq

theorem yields_spelled : Yields P Declaration.Spelled (declaration r) := by
  have hbehind (body : Reader Body) (hbody : Yields Unknown Body.Spelled body)
      (attributes : List Attribute) (m : Modifier) (hm : m.Spelled) :
      Yields Unknown Declaration.Spelled (do
        let name ← name
        let generics ← generics r
        let body ← body
        return { attributes, modifier := m, name, generic := generics.named, body }) :=
    Yields.skip fun _ => Yields.skip fun _ => Yields.map hbody fun _ hb => ⟨hm, hb⟩
  -- only the body of a struct has fields that are kept
  have henum : Yields Unknown Body.Spelled (enumBody r) :=
    Yields.skip fun _ => Yields.skip fun _ => Yields.pure fun _ heq => by cases heq
  have hunion : Yields Unknown Body.Spelled (unionBody r) :=
    Yields.skip fun _ => Yields.skip fun _ => Yields.pure fun _ heq => by cases heq
  unfold declaration
  dsimp only
  refine Yields.skip fun attributes => Yields.bind yields_modifier fun m hm =>
    Yields.skip fun isStruct => Yields.skip fun isEnum => ?_
  cases isStruct with
  | true => exact hbehind _ yields_structFields attributes m hm
  | false =>
      cases isEnum with
      | true => exact hbehind _ henum attributes m hm
      | false => exact Yields.skip fun _ => hbehind _ hunion attributes m hm

end Grammar

/-- **The modifier and the fields of a declaration that has been read are made of words.** -/
theorem spelled_of_declarationOfText {text : String} {d : Declaration}
    (h : declarationOfText text = some d) : d.Spelled :=
  of_declarationOfText (fun depth => Grammar.yields_spelled (r := Grammar.rules depth)) h

end ObservableStore.Source
