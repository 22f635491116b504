import ObservableStore.Proofs.Source.Forward
import ObservableStore.Proofs.Token.Lexed

/-!
# `Proofs.Source.Legible` — what types that have been read look like

The names of a path that has been read are words that can be written again, and a path that begins
with no `::` does not begin with `try` either; only names that take arguments have some
(`TypeExpr.Legible`). A statement about the result of a reader is one about what is ahead of it
(`Yields`): the words of the tokens that are left, and whatever has been found out about them. With
it the facts are carried through the rules, one lemma for each rule that gives a path or a type
(`yields_type`), up to the fields of a declaration (`legible_of_declarationOfText`).
-/

namespace ObservableStore.Source

open Token (Spelled)
open Lexeme (IsWord)

/-! ## Legible types -/

/-- A name that can take arguments. -/
def TakesArguments (name : String) : Prop := Ahead.isIdentifier name = true ∨ name = "Self"

/-- A name of a path. -/
structure IsPathName (name : String) : Prop where
  word : IsWord name.toList
  known : TakesArguments name ∨ name ∈ ["self", "super", "crate", "try"]

/-- A path that can be written again and stands for itself then. -/
structure Path.Legible (p : Path) : Prop where
  nonempty : p.names ≠ []
  names : ∀ name ∈ p.names, IsPathName name
  first : p.rooted = false → p.names.head? ≠ some "try"

/-- A type of which each path can be written again. -/
inductive TypeExpr.Legible : TypeExpr → Prop where
  | itself : Legible .itself
  | path {p : Path} {args : List Argument} (hp : p.Legible)
      (takes : args ≠ [] → ∃ name, p.names.getLast? = some name ∧ TakesArguments name)
      (hargs : ∀ t, .type t ∈ args → Legible t) : Legible (.path p args)
  | call {p : Path} : Legible (.call p)
  | paren {t : TypeExpr} (inner : Legible t) : Legible (.paren t)
  | other {form : TypeForm} : Legible (.other form)

/-- A body whose named fields have types that can be written again. -/
def Body.Legible (b : Body) : Prop := ∀ fields, b = .named fields → ∀ f ∈ fields, f.type.Legible

/-- A declaration whose name and whose fields can be written again. -/
structure Declaration.Legible (d : Declaration) : Prop where
  word : IsWord d.name.toList
  identifier : Ahead.isIdentifier d.name = true
  body : d.body.Legible

/-! ## Results of readers -/

/-- What a reader gives has a property wherever what is ahead has one. -/
structure Yields {α : Type} (P : List Token → Prop) (Q : α → Prop) (r : Reader α) : Prop where
  result : ∀ {c c' : Cursor} {a : α}, r c = some (a, c') → Spelled c.rest → P c.rest → Q a

/-- Nothing is known of what is ahead. -/
abbrev Unknown : List Token → Prop := fun _ => True

theorem spelled_suffix {ts us : List Token} (h : ts <:+ us) (hs : Spelled us) : Spelled ts := by
  obtain ⟨front, rfl⟩ := h
  exact (Token.spelled_append.mp hs).2

namespace Yields

open Reader

variable {α β : Type} {P P' : List Token → Prop} {Q Q' : α → Prop} {R : β → Prop}
  {r : Reader α} {f : α → Reader β}

theorem mono (h : Yields P Q r) (hP : ∀ ts, P' ts → P ts) (hQ : ∀ a, Q a → Q' a) :
    Yields P' Q' r :=
  ⟨fun hr hs hp => hQ _ (h.result hr hs (hP _ hp))⟩

theorem any (r : Reader α) : Yields P (fun _ => True) r := ⟨fun _ _ _ => trivial⟩

theorem pure {a : α} (h : Q a) : Yields P Q (Pure.pure a : Reader α) where
  result hr _ _ := by
    obtain ⟨rfl, -⟩ := Prod.mk.inj (Option.some.inj hr)
    exact h

theorem refuse : Yields P Q (Reader.refuse : Reader α) := ⟨fun hr => by cases hr⟩

/-- What is known of the tokens ahead does not outlast a reader, but that they have words. -/
theorem bind [hr : Forward r] (h : Yields P Q r) (hf : ∀ a, Q a → Yields Unknown R (f a)) :
    Yields P R (r >>= f) where
  result hb hs hp := by
    obtain ⟨a, mid, hfirst, hthen⟩ := Reader.bind_eq_some.mp hb
    exact (hf a (h.result hfirst hs hp)).result hthen (spelled_suffix (hr.suffix hfirst) hs) trivial

/-- A reader whose result does not matter. -/
theorem skip [Forward r] (hf : ∀ a, Yields Unknown R (f a)) : Yields P R (r >>= f) :=
  bind (any r) fun a _ => hf a

/-- A result that is only changed at the end. -/
theorem map {g : α → β} (h : Yields P Q r) (hg : ∀ a, Q a → R (g a)) :
    Yields P R (r >>= fun a => Pure.pure (g a)) where
  result hb hs hp := by
    obtain ⟨a, mid, hfirst, hthen⟩ := Reader.bind_eq_some.mp hb
    obtain ⟨rfl, -⟩ := Prod.mk.inj (Option.some.inj hthen)
    exact hg a (h.result hfirst hs hp)

/-- What a look ahead finds is known behind it. -/
theorem ahead {p : List Token → Bool} {f : Bool → Reader β}
    (htrue : Yields (fun ts => P ts ∧ p ts = true) R (f true))
    (hfalse : Yields (fun ts => P ts ∧ p ts = false) R (f false)) :
    Yields P R (Reader.ahead p >>= f) where
  result {c c' b} hb hs hp := by
    obtain ⟨found, mid, hfirst, hthen⟩ := Reader.bind_eq_some.mp hb
    obtain ⟨rfl, rfl⟩ := Prod.mk.inj (Option.some.inj hfirst)
    cases hfound : p c.rest with
    | true =>
        rw [hfound] at hthen
        exact htrue.result hthen hs ⟨hp, hfound⟩
    | false =>
        rw [hfound] at hthen
        exact hfalse.result hthen hs ⟨hp, hfound⟩

/-- One of two readers, chosen by a look ahead. -/
theorem choose {p : List Token → Bool} {r s : Reader α}
    (hr : Yields (fun ts => P ts ∧ p ts = true) Q r) (hs : Yields Unknown Q s) :
    Yields P Q (Reader.ahead p >>= fun found => if found = true then r else s) :=
  ahead hr (hs.mono (fun _ _ => trivial) fun _ h => h)

/-- An operator that is not there is known not to be there. -/
theorem optOp {s : String} {f : Bool → Reader β} (htrue : Yields Unknown R (f true))
    (hfalse : Yields (fun ts => P ts ∧ Ahead.isOp s ts = false) R (f false)) :
    Yields P R (Reader.optOp s >>= f) := by
  rw [Reader.optOp, bind_assoc]
  refine ahead ?_ ?_
  · rw [if_pos rfl, bind_assoc]
    exact skip fun _ => (pure_bind true f).symm ▸ htrue
  · rw [if_neg Bool.false_ne_true]
    exact (pure_bind false f).symm ▸ hfalse

theorem inGroup {d : Delimiter} (h : Yields Unknown Q r) : Yields P Q (Reader.inGroup d r) where
  result hr hs _ := by
    unfold Reader.inGroup at hr
    split at hr
    · next ts rest heq =>
        split at hr
        · split at hr
          · next inner hbody =>
              split at hr
              · obtain ⟨rfl, -⟩ := Prod.mk.inj (Option.some.inj hr)
                rw [heq, Token.spelled_cons] at hs
                exact h.result hbody hs.1 trivial
              · cases hr
          · cases hr
        · cases hr
    · cases hr

theorem captured {Q : α → Prop} (h : Yields P Q r) :
    Yields P (fun a => Q a.1) (Reader.captured r) where
  result hr hs hp := by
    unfold Reader.captured at hr
    split at hr
    · next heq =>
        obtain ⟨rfl, -⟩ := Prod.mk.inj (Option.some.inj hr)
        exact h.result heq hs hp
    · cases hr

theorem recorded [Forward r] (h : Yields P Q r) :
    Yields P (fun a => Q a.1) (Reader.recorded r) :=
  bind (captured h) fun _ hQ => skip fun _ => pure hQ

theorem verbatimIf {r : Reader (α × Bool)} [Forward r] (h : Yields P (fun a => Q a.1) r) :
    Yields P Q (Reader.verbatimIf r) := by
  have hconsumed : Yields P (fun a => Q a.1.1.1) (Reader.consumed (Reader.captured r)) := by
    refine ⟨fun hr hs hp => ?_⟩
    unfold Reader.consumed at hr
    split at hr
    · next heq =>
        obtain ⟨rfl, -⟩ := Prod.mk.inj (Option.some.inj hr)
        exact (captured h).result heq hs hp
    · cases hr
  exact bind hconsumed fun _ hQ => skip fun _ => pure hQ

/-- What holds before the first round and is kept by each round holds at the end. -/
theorem iterate {step : α → Reader (Option α)} {a : α} [hforward : ∀ a, Forward (step a)]
    (hstep : ∀ a, Q a → Yields Unknown (fun next => ∀ a', next = some a' → Q a') (step a))
    (h : Q a) : Yields P Q (Reader.iterate step a) := by
  suffices h' : ∀ {c c' : Cursor} {b : α}, Reader.iterate step a c = some (b, c') →
      Spelled c.rest → Q b from ⟨fun hr hs _ => h' hr hs⟩
  intro c c' b hr hs
  fun_induction Reader.iterate step a c with
  | case1 => cases hr
  | case2 a c mid hround =>
      obtain ⟨rfl, -⟩ := Prod.mk.inj (Option.some.inj hr)
      exact h
  | case3 a c a' mid hround hless ih =>
      exact ih ((hstep a h).result hround hs trivial a' rfl) hr
        (spelled_suffix ((hforward a).suffix hround) hs)
  | case4 a c a' mid hround hmore =>
      obtain ⟨rfl, -⟩ := Prod.mk.inj (Option.some.inj hr)
      exact (hstep a h).result hround hs trivial _ rfl

theorem commaSeparated [Forward r] (h : Yields Unknown Q r) :
    Yields P (fun as => ∀ a ∈ as, Q a) (Reader.commaSeparated r) := by
  unfold Reader.commaSeparated
  dsimp only
  refine bind (Q := fun as => ∀ a ∈ as, Q a) (iterate ?_ (fun a ha => by cases ha)) ?_
  · intro as has
    refine skip fun atEnd => ?_
    have hmore (a : α) (ha : Q a) : ∀ as', some (a :: as) = some as' → ∀ a ∈ as', Q a := by
      intro as' heq b hb
      obtain rfl := Option.some.inj heq
      rcases List.mem_cons.mp hb with rfl | hb
      · exact ha
      · exact has b hb
    cases atEnd with
    | true => exact pure fun _ heq => by cases heq
    | false =>
        refine bind h fun a ha => skip fun atEnd => ?_
        cases atEnd with
        | true => exact pure (hmore a ha)
        | false => exact skip fun _ => pure (hmore a ha)
  · intro as has
    exact pure fun a ha => has a (List.mem_reverse.mp ha)

theorem anyWord : Yields P (fun w => IsWord w.toList) Reader.anyWord where
  result hr hs _ := by
    unfold Reader.anyWord at hr
    split at hr
    · next heq =>
        obtain ⟨rfl, -⟩ := Prod.mk.inj (Option.some.inj hr)
        rw [heq, Token.spelled_cons] at hs
        exact hs.1 _ (List.mem_singleton.mpr rfl)
    · cases hr

/-- The word that is read is the one that is ahead. -/
theorem wordAhead {Q : String → Prop} (h : ∀ w ts, P (.word w :: ts) → Q w) :
    Yields P Q Reader.anyWord where
  result {c c' w} hr _ hp := by
    unfold Reader.anyWord at hr
    split at hr
    · next heq =>
        obtain ⟨rfl, -⟩ := Prod.mk.inj (Option.some.inj hr)
        exact h _ _ (heq ▸ hp)
    · cases hr

theorem and {Q Q' : α → Prop} (h : Yields P Q r) (h' : Yields P Q' r) :
    Yields P (fun a => Q a ∧ Q' a) r :=
  ⟨fun hr hs hp => ⟨h.result hr hs hp, h'.result hr hs hp⟩⟩

/-- What is required is known. -/
theorem require {p : List Token → Bool} {f : Unit → Reader β}
    (h : Yields (fun ts => P ts ∧ p ts = true) R (f ())) :
    Yields P R (Reader.require p >>= f) where
  result {c c' b} hb hs hp := by
    obtain ⟨u, mid, hfirst, hthen⟩ := Reader.bind_eq_some.mp hb
    unfold Reader.require at hfirst
    split at hfirst
    · next hfound =>
        obtain ⟨-, rfl⟩ := Prod.mk.inj (Option.some.inj hfirst)
        exact h.result hthen hs ⟨hp, hfound⟩
    · cases hfirst

theorem name : Yields P (fun n => IsWord n.toList ∧ Ahead.isIdentifier n = true) Reader.name := by
  unfold Reader.name
  exact require (and anyWord (wordAhead fun _ _ h => h.2))

end Yields

/-! ## Names and paths -/

/-- A generic argument of which each path can be written again. -/
def Argument.Legible (a : Argument) : Prop := ∀ t, a = .type t → t.Legible

/-- Rules that give types which can be written again. -/
structure Rules.Legible (r : Rules) : Prop where
  type : ∀ plus, Yields Unknown TypeExpr.Legible (r.type plus)
  argument : Yields Unknown Argument.Legible r.argument

namespace Grammar

open Reader Ahead

/-- A name of a path with arguments that can be written again. -/
structure LegibleName (x : String × Option (List Argument)) : Prop where
  name : IsPathName x.1
  takes : ∀ args, x.2 = some args → TakesArguments x.1
  arguments : ∀ args, x.2 = some args → ∀ a ∈ args, a.Legible

/-- What is known of the path of a type. -/
structure PathForm.Legible (p : PathForm) : Prop where
  path : p.path.Legible
  takes : p.arguments ≠ [] → ∃ name, p.path.names.getLast? = some name ∧ TakesArguments name
  arguments : ∀ a ∈ p.arguments, a.Legible

theorem legible_pathForm {rooted qualified : Bool} {names : List (String × Option (List Argument))}
    {first : String × Option (List Argument)} (hhead : names.head? = some first)
    (hfirst : rooted = false → first.1 ≠ "try") (h : ∀ x ∈ names, LegibleName x) :
    (pathForm rooted qualified names).Legible := by
  have hne : names ≠ [] := by
    rintro rfl
    cases hhead
  have hlast : ∀ a, a ∈ (pathForm rooted qualified names).arguments →
      ∃ x args, names.getLast? = some x ∧ x.2 = some args ∧ a ∈ args := by
    intro a ha
    obtain ⟨x, hx⟩ : ∃ x, names.getLast? = some x := ⟨_, List.getLast?_eq_some_getLast hne⟩
    simp only [pathForm, hx, Option.bind_some] at ha
    cases hargs : x.2 with
    | none =>
        rw [hargs] at ha
        cases ha
    | some args =>
        rw [hargs] at ha
        exact ⟨x, args, hx, hargs, ha⟩
  refine ⟨⟨?_, ?_, ?_⟩, ?_, ?_⟩
  · simpa [pathForm] using hne
  · intro name hname
    obtain ⟨x, hx, rfl⟩ := List.mem_map.mp hname
    exact (h x hx).name
  · intro hrooted
    simp only [pathForm, List.head?_map, hhead, Option.map_some]
    exact fun heq => hfirst hrooted (Option.some.inj heq)
  · intro hargs
    obtain ⟨a, ha⟩ := List.exists_mem_of_ne_nil _ hargs
    obtain ⟨x, args, hx, hsome, -⟩ := hlast a ha
    refine ⟨x.1, ?_, (h x (List.mem_of_getLast? hx)).takes args hsome⟩
    simp only [pathForm, List.getLast?_map, hx, Option.map_some]
  · intro a ha
    obtain ⟨x, args, hx, hsome, hmem⟩ := hlast a ha
    exact (h x (List.mem_of_getLast? hx)).arguments args hsome a hmem

-- the longer rules have more parts than a search for an instance goes through by default
set_option synthInstance.maxSize 4000
set_option synthInstance.maxHeartbeats 200000

variable {r : Rules} [r.Forward] {P : List Token → Prop} {α : Type}

theorem yields_angleList {Q : α → Prop} {isLifetime : α → Bool} {element : Reader α}
    [Forward element] (h : Yields Unknown Q element) :
    Yields P (fun found => ∀ a ∈ found.1, Q a) (angleList isLifetime element) := by
  unfold angleList
  dsimp only
  refine Yields.bind (Q := fun found => ∀ x ∈ found.1, Q x.1)
    (Yields.captured (Q := fun found : List (α × Piece) => ∀ x ∈ found, Q x.1) ?_) ?_
  · refine Yields.skip fun _ => Yields.bind (Q := fun found => ∀ x ∈ found, Q x.1)
      (Yields.iterate ?_ fun x hx => by cases hx) fun found hfound =>
        Yields.skip fun _ => Yields.pure hfound
    intro found hfound
    have hmore (a : α) (piece : Piece) (ha : Q a) :
        ∀ next, some ((a, piece) :: found) = some next → ∀ x ∈ next, Q x.1 := by
      intro next heq x hx
      obtain rfl := Option.some.inj heq
      rcases List.mem_cons.mp hx with rfl | hx
      · exact ha
      · exact hfound x hx
    refine Yields.skip fun stops => ?_
    cases stops with
    | true => exact Yields.pure fun _ heq => by cases heq
    | false =>
        refine Yields.bind (Yields.captured h) fun a ha => Yields.skip fun stops => ?_
        cases stops with
        | true => exact Yields.skip fun _ => Yields.pure (hmore a.1 _ ha)
        | false => exact Yields.skip fun _ => Yields.skip fun _ => Yields.pure (hmore a.1 _ ha)
  · intro found hfound
    refine Yields.pure fun a ha => ?_
    obtain ⟨x, hx, rfl⟩ := List.mem_map.mp ha
    exact hfound x (List.mem_reverse.mp hx)

theorem yields_angleArguments (hr : r.Legible) :
    Yields P (fun args => ∀ a ∈ args, a.Legible) (angleArguments r) := by
  unfold angleArguments
  exact Yields.bind (yields_angleList hr.argument) fun found hfound =>
    Yields.skip fun _ => Yields.pure hfound

/-- A name that is read is the word that is ahead, and its arguments can be written again. -/
theorem yields_pathName (hr : r.Legible) (inExpression : Bool) {S : String → Prop}
    (hS : ∀ w ts, P (.word w :: ts) → S w) :
    Yields P (fun x => LegibleName x ∧ S x.1) (pathName r inExpression) := by
  unfold pathName
  dsimp only
  let K := fun n : String => (IsWord n.toList ∧ TakesArguments n) ∧ S n
  refine Yields.ahead ?alone (Yields.ahead (Yields.bind (Q := K) ?itself ?behindItself)
    (Yields.bind (Q := K) ?named ?behindName))
  case alone =>
    refine Yields.bind (Q := fun n => (IsWord n.toList ∧
      n ∈ ["self", "super", "crate", "try"]) ∧ S n) ?_ ?_
    · refine Yields.and (Yields.and Yields.anyWord (Yields.wordAhead ?_))
        (Yields.wordAhead fun w ts h => hS w ts h.1)
      intro w ts h
      simpa [isPathWord, isWord, or_assoc] using h.2
    · intro n hn
      refine Yields.pure ⟨⟨⟨hn.1.1, Or.inr hn.1.2⟩, ?_, ?_⟩, hn.2⟩
      · exact fun _ heq => by cases heq
      · exact fun _ heq => by cases heq
  case itself =>
    refine Yields.and (Yields.and Yields.anyWord (Yields.wordAhead ?_))
      (Yields.wordAhead fun w ts h => hS w ts h.1.1)
    intro w ts h
    exact Or.inr (beq_iff_eq.mp h.2)
  case named =>
    refine Yields.and (Yields.name.mono (fun _ h => h) fun n hn => ⟨hn.1, Or.inl hn.2⟩) ?_
    exact Yields.require (Yields.wordAhead fun w ts h => hS w ts h.1.1.1)
  case behindItself | behindName =>
    intro n hn
    refine Yields.skip fun bare => Yields.skip fun behindColons => ?_
    split
    · refine Yields.skip fun _ => Yields.bind (yields_angleArguments hr) fun args hargs =>
        Yields.pure ⟨⟨⟨hn.1.1, Or.inl hn.1.2⟩, fun _ _ => hn.1.2, ?_⟩, hn.2⟩
      intro args' heq
      obtain rfl := Option.some.inj heq
      exact hargs
    · refine Yields.pure ⟨⟨⟨hn.1.1, Or.inl hn.1.2⟩, ?_, ?_⟩, hn.2⟩
      · exact fun _ heq => by cases heq
      · exact fun _ heq => by cases heq

theorem yields_pathNames (hr : r.Legible) (inExpression calls : Bool) {S : String → Prop}
    (hS : ∀ w ts, P (.word w :: ts) → S w) :
    Yields P (fun xs => (∃ first, xs.head? = some first ∧ S first.1) ∧ ∀ x ∈ xs, LegibleName x)
      (pathNames r inExpression calls) := by
  unfold pathNames
  refine Yields.bind (yields_pathName hr inExpression hS) fun first hfirst => ?_
  refine Yields.bind (Q := fun names => names.getLast? = some first ∧ ∀ x ∈ names, LegibleName x)
    (Yields.iterate ?_ ⟨rfl, fun x hx => List.mem_singleton.mp hx ▸ hfirst.1⟩) ?_
  · -- a further name comes in front of those that are there, so the first one stays the last
    intro names hnames
    refine Yields.skip fun more => ?_
    split
    · refine Yields.skip fun _ => Yields.bind
        (yields_pathName hr inExpression (S := fun _ => True) fun _ _ _ => trivial) fun x hx =>
          Yields.pure ?_
      intro names' heq
      obtain rfl := Option.some.inj heq
      refine ⟨?_, ?_⟩
      · rw [List.getLast?_cons, hnames.1]
        rfl
      · intro y hy
        rcases List.mem_cons.mp hy with rfl | hy
        · exact hx.1
        · exact hnames.2 y hy
    · exact Yields.pure fun _ heq => by cases heq
  · intro names hnames
    refine Yields.pure ⟨⟨first, ?_, hfirst.2⟩, fun x hx => hnames.2 x (List.mem_reverse.mp hx)⟩
    rw [List.head?_reverse]
    exact hnames.1

/-- A path that begins with a name that can begin one. -/
theorem yields_pathOf (hr : r.Legible) (inExpression : Bool)
    (hP : ∀ ts, P ts → isOp "::" ts = false → isPathName ts = true) :
    Yields P PathForm.Legible (pathOf r inExpression) := by
  unfold pathOf
  refine Yields.optOp ?_ ?_
  · refine Yields.bind (yields_pathNames hr inExpression true (S := fun _ => True)
      fun _ _ _ => trivial) fun names hnames => ?_
    obtain ⟨⟨first, hhead, -⟩, hall⟩ := hnames
    exact Yields.pure (legible_pathForm hhead (fun h => by cases h) hall)
  · have hS : ∀ w ts, (P (.word w :: ts) ∧ isOp "::" (.word w :: ts) = false) → w ≠ "try" := by
      rintro w ts ⟨hp, hcolons⟩ rfl
      have hname := hP _ hp hcolons
      exact absurd hname (by simp [isPathName, isName, isWord, isIdentifier, keywords])
    refine Yields.bind (yields_pathNames hr inExpression true hS) fun names hnames => ?_
    obtain ⟨⟨first, hhead, hfirst⟩, hall⟩ := hnames
    exact Yields.pure (legible_pathForm hhead (fun _ => hfirst) hall)

theorem yields_qualifiedPathOf (hr : r.Legible) (inExpression : Bool)
    (hP : ∀ ts, P ts → isPathStart ts = true) :
    Yields P (fun p => p.qualified = true ∨ p.Legible) (qualifiedPathOf r inExpression) := by
  unfold qualifiedPathOf
  dsimp only
  refine Yields.optOp ?_ ?_
  · refine Yields.skip fun _ => Yields.skip fun through => ?_
    cases through with
    | true => exact Yields.skip fun _ => Yields.skip fun _ => Yields.skip fun _ =>
        Yields.skip fun _ => Yields.pure (Or.inl rfl)
    | false => exact Yields.skip fun _ => Yields.skip fun _ => Yields.skip fun _ =>
        Yields.pure (Or.inl rfl)
  · refine (yields_pathOf hr inExpression ?_).mono (fun _ h => h) fun _ h => Or.inr h
    rintro ts ⟨hp, hangle⟩ hcolons
    simpa [isPathStart, hangle, hcolons] using hP ts hp

/-! ## Types -/

theorem yields_pathType (hr : r.Legible) (plus bound : Bool)
    (hP : ∀ ts, P ts → isPathStart ts = true) :
    Yields P TypeExpr.Legible (pathType r plus bound) := by
  unfold pathType
  dsimp only
  refine Yields.bind (yields_qualifiedPathOf hr false hP) fun p hp => ?_
  split
  · exact Yields.pure .other
  · next hqualified =>
      have hlegible : p.Legible := hp.resolve_left hqualified
      refine Yields.skip fun mark => ?_
      split
      · exact Yields.skip fun _ => Yields.pure .other
      · refine Yields.skip fun sum => ?_
        split
        · split
          · exact Yields.skip fun _ => Yields.pure .other
          · exact Yields.pure .other
        · split
          · exact Yields.pure .itself
          · exact Yields.pure (.path hlegible.path hlegible.takes fun t ht =>
              hlegible.arguments _ ht t rfl)

theorem yields_traitObject (plus : Bool) : Yields P TypeExpr.Legible (traitObject r plus) := by
  unfold traitObject
  dsimp only
  refine Yields.verbatimIf (Yields.skip fun marked => ?_)
  cases marked with
  | true => exact Yields.skip fun _ => Yields.skip fun _ => Yields.pure .other
  | false => exact Yields.skip fun _ => Yields.skip fun _ => Yields.pure .other

/-- What stands in parentheses can be written again. -/
def Enclosed.Legible : Enclosed → Prop
  | .type t => t.Legible
  | .bound => True
  | .boundOrType t => t.Legible

theorem yields_enclosed (hr : r.Legible) : Yields P Enclosed.Legible (enclosed r) := by
  unfold enclosed
  refine Yields.skip fun empty => ?_
  split
  · exact Yields.pure .other
  refine Yields.skip fun lifetime => ?_
  split
  · exact Yields.bind (yields_traitObject true) fun t ht => Yields.pure (.paren ht)
  refine Yields.skip fun maybe => ?_
  split
  · exact Yields.skip fun _ => Yields.pure trivial
  refine Yields.skip fun begin => Yields.bind (hr.type true) fun t ht => Yields.skip fun comma => ?_
  split
  · exact Yields.skip fun _ => Yields.pure .other
  split
  · exact Yields.pure (.paren ht)
  · exact Yields.pure (.paren ht)
  · split
    · exact Yields.pure (.paren ht)
    · exact Yields.pure (.paren ht)
  · exact Yields.pure (.paren ht)

theorem yields_parenthesized (hr : r.Legible) (plus : Bool) :
    Yields P TypeExpr.Legible (parenthesized r plus) := by
  have hsum : Yields Unknown TypeExpr.Legible (sumOfBounds r) := by
    unfold sumOfBounds
    exact Yields.skip fun _ => Yields.pure .other
  unfold parenthesized
  refine Yields.bind (Yields.inGroup (yields_enclosed hr)) fun content hcontent => ?_
  cases content with
  | bound => exact hsum
  | type t => exact Yields.pure hcontent
  | boundOrType t =>
      refine Yields.skip fun sum => ?_
      split
      · exact hsum
      · exact Yields.pure hcontent

theorem yields_functionPointer : Yields P TypeExpr.Legible (functionPointer r) := by
  unfold functionPointer convention result
  dsimp only
  refine Yields.skip fun _ => Yields.skip fun external => ?_
  cases external with
  | true => exact Yields.skip fun _ => Yields.skip fun _ => Yields.skip fun _ =>
      Yields.skip fun _ => Yields.pure .other
  | false => exact Yields.skip fun _ => Yields.skip fun _ => Yields.skip fun _ =>
      Yields.pure .other

theorem yields_rawPointer : Yields P TypeExpr.Legible (rawPointer r) := by
  unfold rawPointer
  dsimp only
  refine Yields.skip fun _ => Yields.skip fun constant => ?_
  cases constant with
  | true => exact Yields.skip fun _ => Yields.pure .other
  | false => exact Yields.skip fun _ => Yields.skip fun _ => Yields.pure .other

theorem yields_reference : Yields P TypeExpr.Legible (reference r) := by
  unfold reference
  dsimp only
  refine Yields.skip fun _ => Yields.skip fun named => ?_
  cases named with
  | true => exact Yields.skip fun _ => Yields.skip fun _ => Yields.skip fun _ => Yields.pure .other
  | false => exact Yields.skip fun _ => Yields.skip fun _ => Yields.pure .other

/-- A type of any form can be written again. -/
theorem yields_type (hr : r.Legible) (plus : Bool) : Yields P TypeExpr.Legible (type r plus) := by
  unfold type
  dsimp only
  refine Yields.skip fun bound => ?_
  rcases bound with _ | _
  case' true => refine Yields.skip fun _ => Yields.skip fun _ => ?_
  -- with or without a binder in front, the form is told from what is ahead
  all_goals
    refine Yields.choose (yields_parenthesized hr plus) (Yields.choose yields_functionPointer ?_)
    refine Yields.choose (Yields.skip fun _ => Yields.pure .other) ?_
    refine Yields.choose (yields_pathType hr plus _ fun ts h => h.2) ?_
    refine Yields.choose (yields_traitObject plus) ?_
    refine Yields.choose (Yields.skip fun _ => Yields.pure .other) ?_
    refine Yields.choose yields_rawPointer (Yields.choose yields_reference ?_)
    refine Yields.choose (Yields.skip fun _ => Yields.pure .other) ?_
    refine Yields.choose (Yields.skip fun _ => Yields.skip fun _ => Yields.pure .other) ?_
    refine Yields.choose (Yields.skip fun _ => Yields.pure .other) ?_
    exact Yields.skip fun _ => yields_traitObject true

theorem yields_argument (hr : r.Legible) : Yields P Argument.Legible (argument r) := by
  have hother {a : Argument} (h : ∀ t, a ≠ .type t) : a.Legible := fun t heq => absurd heq (h t)
  unfold argument
  dsimp only
  refine Yields.choose (Yields.skip fun _ => Yields.pure (hother fun t heq => by cases heq)) ?_
  refine Yields.choose (Yields.skip fun _ => Yields.pure (hother fun t heq => by cases heq)) ?_
  refine Yields.bind (Yields.recorded (hr.type true)) fun t ht => Yields.skip fun binding => ?_
  split
  · exact Yields.skip fun _ => Yields.pure (hother fun t heq => by cases heq)
  refine Yields.skip fun bound => ?_
  split
  · exact Yields.skip fun _ => Yields.pure (hother fun t heq => by cases heq)
  · refine Yields.pure fun t' heq => ?_
    obtain rfl := Argument.type.inj heq
    exact ht

/-- **All rules give types that can be written again**, however deep they nest. -/
theorem legible_rules (depth : Nat) : (rules depth).Legible := by
  induction depth with
  | zero => exact ⟨fun _ => Yields.refuse, Yields.refuse⟩
  | succ depth ih => exact ⟨fun plus => yields_type ih plus, yields_argument ih⟩

/-! ## Declarations -/

omit [r.Forward] in
theorem yields_fieldType (hr : r.Legible) (unnamed : Bool) {nested : Reader Unit}
    [Forward nested] : Yields P TypeExpr.Legible (fieldType r unnamed nested) := by
  unfold fieldType
  refine Yields.skip fun holds => ?_
  split
  · exact Yields.skip fun _ => Yields.pure .other
  · exact hr.type true

theorem yields_namedFields (hr : r.Legible) :
    Yields P (fun fields => ∀ f ∈ fields, f.type.Legible) (namedFields r) := by
  suffices h : ∀ depth, Yields P (fun fields => ∀ f ∈ fields, f.type.Legible)
      (fieldsWithin r depth) from ⟨fun hc hs hp => (h _).result hc hs hp⟩
  intro depth
  cases depth with
  | zero => exact Yields.refuse
  | succ depth =>
      refine Yields.inGroup (Yields.commaSeparated (Q := fun f : Field => f.type.Legible) ?_)
      unfold namedField
      dsimp only
      refine Yields.skip fun _ => Yields.skip fun _ => Yields.skip fun unnamed => ?_
      cases unnamed with
      | true => exact Yields.skip fun _ => Yields.skip fun _ =>
          Yields.map (Yields.recorded (yields_fieldType hr true)) fun _ ht => ht
      | false => exact Yields.skip fun _ => Yields.skip fun _ =>
          Yields.map (Yields.recorded (yields_fieldType hr false)) fun _ ht => ht

theorem yields_structBody (hr : r.Legible) : Yields P Body.Legible (structBody r) := by
  unfold structBody
  refine Yields.skip fun constrained => Yields.skip fun parentheses => ?_
  split
  · exact Yields.skip fun _ => Yields.skip fun _ => Yields.skip fun _ =>
      Yields.pure fun _ heq => by cases heq
  refine Yields.skip fun braces => ?_
  split
  · refine Yields.map (yields_namedFields hr) fun fields hfields fields' heq => ?_
    obtain rfl := Body.named.inj heq
    exact hfields
  · exact Yields.skip fun _ => Yields.pure fun _ heq => by cases heq

theorem yields_declaration (hr : r.Legible) : Yields P Declaration.Legible (declaration r) := by
  have hbody : ∀ body : Reader Body, Yields Unknown Body.Legible body →
      ∀ (attributes : List Attribute) (m : Modifier), Yields Unknown Declaration.Legible (do
        let name ← name
        let generics ← generics r
        let body ← body
        return { attributes, modifier := m, name, generic := generics.named, body }) := by
    intro body hbody attributes m
    refine Yields.bind Yields.name fun n hn => Yields.skip fun _ => ?_
    exact Yields.map hbody fun b hb => ⟨hn.1, hn.2, hb⟩
  unfold declaration
  dsimp only
  refine Yields.skip fun attributes => Yields.skip fun m => Yields.skip fun isStruct =>
    Yields.skip fun isEnum => ?_
  -- only the body of a struct has fields that are kept
  have henum : Yields Unknown Body.Legible (enumBody r) :=
    Yields.skip fun _ => Yields.skip fun _ => Yields.pure fun _ heq => by cases heq
  have hunion : Yields Unknown Body.Legible (unionBody r) :=
    Yields.skip fun _ => Yields.skip fun _ => Yields.pure fun _ heq => by cases heq
  cases isStruct with
  | true => exact hbody _ (yields_structBody hr) attributes m
  | false =>
      cases isEnum with
      | true => exact hbody _ henum attributes m
      | false => exact Yields.skip fun _ => hbody _ hunion attributes m

end Grammar

/-- What the rule for declarations yields holds of every declaration that is read from a text. -/
theorem of_declarationOfText {Q : Declaration → Prop} {text : String} {d : Declaration}
    (hrule : ∀ depth, Yields Unknown Q (Grammar.declaration (Grammar.rules depth)))
    (h : declarationOfText text = some d) : Q d := by
  obtain ⟨ts, hts, hread⟩ := Option.bind_eq_some_iff.mp h
  unfold Reader.readAll at hread
  split at hread
  · next heq =>
      split at hread
      · obtain rfl := Option.some.inj hread
        exact (hrule _).result heq (Token.spelled_of_ofChars hts) trivial
      · cases hread
  · cases hread

/-- **All declarations that are read can be written again**: their names and the paths in the types
    of their fields. -/
theorem legible_of_declarationOfText {text : String} {d : Declaration}
    (h : declarationOfText text = some d) : d.Legible :=
  of_declarationOfText (fun depth => Grammar.yields_declaration (Grammar.legible_rules depth)) h

end ObservableStore.Source
