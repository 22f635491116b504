import Mathlib.Data.List.Forall2
import ObservableStore.Proofs.Describe
import ObservableStore.Proofs.Scope.Alias
import ObservableStore.Proofs.Wrapper.ReadBack

/-!
# `Proofs.Wrapper.InlineTypes` — the types of a wrapper in place

A wrapper that is derived in place stands in the module of its root, where nothing is known of the
module. What is written there for the type of a field is read as that type again: a path that
resolves is written as a path that resolves to the same name of the same namespace
(`resolve_inlinePath`), and so is each argument (`written_inline`). Only a type of the module itself
is written by a name that may stand for something else there, or cannot be read at all.
-/

namespace ObservableStore

open Source (TakesArguments IsPathName)

/-! ## Paths in the module of the root -/

/-- The path by which a type is written in the module of its root. -/
def inlinePath (home : Namespace) (name : String) : Source.Path :=
  if Prelude.covers home name || home == .here then .ofName name else home.pathTo name

/-- A name that stands for a type of the module when it stands alone. -/
structure IsPlainName (name : String) : Prop where
  noPrelude : Prelude.home? name = none
  notSelf : name ≠ "Self"
  notTry : name ≠ "try"

namespace Scope

variable {p : Source.Path} {home : Namespace} {name first : String} {names rest : List String}

/-- Going up from the module leads to as many `super` as are read. -/
theorem ascend_super (up : Nat) (rest : List String) :
    ascend .here (.ofSegments (List.replicate (up + 1) "super")) rest
      = .ok (List.replicate (up + 1) "super" ++ rest) := by
  induction rest generalizing up with
  | nil => rw [ascend, List.append_nil]; rfl
  | cons s rest ih =>
      have hparent : (Namespace.ofSegments (List.replicate (up + 1) "super")).parent? =
          some (.ofSegments (List.replicate (up + 2) "super")) := by
        have hself : List.replicate (up + 1) "super" ≠ ["self"] := by
          intro heq
          have hmem : "self" ∈ List.replicate (up + 1) "super" := by
            rw [heq]
            exact List.mem_singleton.mpr rfl
          exact absurd (List.eq_of_mem_replicate hmem) (by decide)
        have hlast : (List.replicate (up + 1) "super").getLast? = some "super" := by
          rw [List.getLast?_replicate, if_neg (Nat.succ_ne_zero up)]
        rw [Namespace.parent?, Namespace.ofSegments, if_neg hself, if_pos hlast]
        simp only [Namespace.child, Namespace.ofSegments, List.replicate_succ']
      by_cases hs : s = "super"
      · subst hs
        rw [ascend, if_pos rfl, hparent]
        refine (ih (up + 1)).trans ?_
        rw [List.replicate_succ', List.append_assoc]
        rfl
      · rw [ascend, if_neg hs]
        rfl

/-- A path that begins in the crate or the module is absolute as it is. -/
theorem absolute_here (h : Namespace.isRelativeWord first = true) :
    (lenient .here).absolute (first :: rest) = .ok (first :: rest) := by
  simp only [Namespace.isRelativeWord, Bool.or_eq_true, beq_iff_eq] at h
  rcases h with (rfl | rfl) | rfl
  · rfl
  · rfl
  · exact ascend_super 0 rest

theorem resolveName_here (name : String) :
    (lenient .here).resolveName name = .ok ⟨(Prelude.home? name).getD .here, name⟩ := by
  unfold resolveName
  cases hprelude : Prelude.home? name <;> rfl

/-- A path of two names or more is absolute where its beginning is known, and else kept as it is
    written. -/
theorem resolve_path_here (first second : String) (rest : List String) :
    (lenient .here).resolve ⟨false, first :: second :: rest⟩ =
      if Namespace.isRelativeWord first then split (first :: second :: rest)
      else (split (first :: second :: rest)).map fun t =>
        { t with home := .ofWritten t.home.segments } := by
  have hknows : (lenient .here).knowsRoot first = Namespace.isRelativeWord first := by
    simp [knowsRoot, lenient, imported?]
  unfold resolve
  rw [if_neg Bool.false_ne_true]
  simp only [hknows]
  cases hrelative : Namespace.isRelativeWord first with
  | true => rw [absolute_here hrelative]; rfl
  | false => rfl

/-- What a path of two names or more stands for beside the root. -/
inductive Reaches (p : Source.Path) (home : Namespace) : Prop where
  /-- A path behind `::`. -/
  | rooted (hp : p.rooted = true) (hw : home.asWritten = false)
  /-- A path that begins in the crate or the module. -/
  | relative (hw : home.asWritten = false) (hrelative : home.isRelative = true)
  /-- A path whose beginning is not known. -/
  | written (hp : p.rooted = false) (hw : home.asWritten = true) (hrelative : home.isRelative = false)

theorem isRelative_of_names (h : first :: rest = home.segments ++ [name])
    (hne : home.segments ≠ []) : home.isRelative = Namespace.isRelativeWord first := by
  obtain ⟨s, ss, hs⟩ := List.exists_cons_of_ne_nil hne
  rw [hs] at h
  obtain rfl := (List.cons.inj h).1
  rw [Namespace.isRelative, hs]

theorem resolve_here_cases (h : (lenient .here).resolve p = .ok ⟨home, name⟩) :
    (p.names = [name] ∧ home = (Prelude.home? name).getD .here) ∨
      (home.segments ≠ [] ∧ p.names = home.segments ++ [name] ∧ Reaches p home) := by
  obtain ⟨rooted, names⟩ := p
  cases rooted with
  | true =>
      obtain ⟨hnames, hne, hw⟩ := split_eq_ok h
      exact Or.inr ⟨hne, hnames, .rooted rfl hw⟩
  | false =>
      rcases names with _ | ⟨first, _ | ⟨second, rest⟩⟩
      · cases h
      · have hname : (lenient .here).resolveName first = .ok ⟨home, name⟩ := h
        rw [resolveName_here] at hname
        obtain ⟨rfl, rfl⟩ := TypeName.mk.inj (Except.ok.inj hname)
        exact Or.inl ⟨rfl, rfl⟩
      · rw [resolve_path_here] at h
        cases hrelative : Namespace.isRelativeWord first with
        | true =>
            rw [hrelative, if_pos rfl] at h
            obtain ⟨hnames, hne, hw⟩ := split_eq_ok h
            exact Or.inr ⟨hne, hnames,
              .relative hw ((isRelative_of_names hnames hne).trans hrelative)⟩
        | false =>
            rw [hrelative, if_neg Bool.false_ne_true] at h
            obtain ⟨⟨ns, n⟩, hsplit, heq⟩ := map_eq_ok.mp h
            obtain ⟨rfl, rfl⟩ := TypeName.mk.inj heq
            obtain ⟨hnames, hne, hw⟩ := split_eq_ok hsplit
            exact Or.inr ⟨hne, hnames,
              .written rfl rfl ((isRelative_of_names hnames hne).trans hrelative)⟩

theorem nonempty_of_resolve_here (h : (lenient .here).resolve p = .ok ⟨home, name⟩) :
    home.segments ≠ [] := by
  rcases resolve_here_cases h with ⟨-, rfl⟩ | ⟨hne, -, -⟩
  · cases hprelude : Prelude.home? name with
    | none => exact List.cons_ne_nil _ _
    | some ns => exact (Prelude.global_of_home? hprelude).nonempty
  · exact hne

/-- The path to a type that a path stands for stands for it as well. -/
theorem resolve_pathTo_here (hne : home.segments ≠ []) (h : Reaches p home) :
    (lenient .here).resolve (home.pathTo name) = .ok ⟨home, name⟩ := by
  obtain ⟨segments, asWritten⟩ := home
  obtain ⟨first, rest, rfl⟩ := List.exists_cons_of_ne_nil hne
  have hsplit : split ((first :: rest) ++ [name]) = .ok ⟨.ofSegments (first :: rest), name⟩ :=
    split_concat _ _ hne
  obtain ⟨second, more, hmore⟩ : ∃ second more, rest ++ [name] = second :: more :=
    List.exists_cons_of_ne_nil (by simp)
  rw [List.cons_append, hmore] at hsplit
  have hpath : Namespace.pathTo ⟨first :: rest, asWritten⟩ name =
      ⟨!(Namespace.isRelativeWord first || asWritten), first :: second :: more⟩ := by
    rw [← hmore]
    rfl
  rw [hpath]
  cases asWritten with
  | false =>
      cases hrelative : Namespace.isRelativeWord first with
      | true => rw [Bool.true_or, Bool.not_true, resolve_path_here, hrelative, if_pos rfl, hsplit]; rfl
      | false => exact hsplit
  | true =>
      have hrelative : Namespace.isRelativeWord first = false := by
        cases h with
        | rooted _ hw => cases hw
        | relative hw _ => cases hw
        | written _ _ hrelative => exact hrelative
      rw [Bool.or_true, Bool.not_true, resolve_path_here, hrelative, if_neg Bool.false_ne_true,
        hsplit]
      rfl

/-- The path to a type begins with no word that begins no path. -/
theorem first_pathTo (hp : p.Legible) (hnames : p.names = home.segments ++ [name])
    (hne : home.segments ≠ []) (h : Reaches p home) (hrooted : (home.pathTo name).rooted = false) :
    (home.pathTo name).names.head? ≠ some "try" := by
  have hflag : (home.isRelative || home.asWritten) = true := by
    rw [Namespace.pathTo, Bool.not_eq_eq_eq_not] at hrooted
    exact hrooted
  intro htry
  have hhead : p.names.head? = some "try" := hnames ▸ htry
  obtain ⟨first, rest, hfirst⟩ := List.exists_cons_of_ne_nil hp.nonempty
  obtain rfl : first = "try" := by
    rw [hfirst] at hhead
    exact Option.some.inj hhead
  have hrelative := isRelative_of_names (hfirst ▸ hnames) hne
  cases h with
  | rooted _ hw =>
      rw [hrelative, hw] at hflag
      exact absurd hflag (by decide)
  | relative _ hword =>
      rw [hrelative] at hword
      exact absurd hword (by decide)
  | written hplain => exact hp.first hplain hhead

/-- **A path that resolves is written as one that resolves to the same**, where a type of the module
    has a plain name. -/
theorem resolve_inlinePath (hp : p.Legible) (h : (lenient .here).resolve p = .ok ⟨home, name⟩)
    (hplain : home = .here → IsPlainName name) :
    (inlinePath home name).Legible ∧
      (lenient .here).resolve (inlinePath home name) = .ok ⟨home, name⟩ ∧
      p.names.getLast? = some name := by
  have hlast : p.names.getLast? = some name := by
    rcases resolve_here_cases h with ⟨hnames, -⟩ | ⟨-, hnames, -⟩
    · rw [hnames]
      rfl
    · rw [hnames, List.getLast?_concat]
  have hname : IsPathName name := hp.names name (List.mem_of_getLast? hlast)
  unfold inlinePath
  split
  · next hsimple =>
      have hcases : Prelude.home? name = some home ∨ home = .here := by
        simpa [Prelude.covers] using hsimple
      refine ⟨⟨List.cons_ne_nil _ _, ?_, fun _ => ?_⟩, ?_, hlast⟩
      · intro n hn
        exact List.mem_singleton.mp hn ▸ hname
      · intro htry
        obtain rfl := Option.some.inj htry
        rcases hcases with hprelude | hhere
        · cases hprelude
        · exact (hplain hhere).notTry rfl
      · have hresolve : (lenient .here).resolve (.ofName name) =
            .ok ⟨(Prelude.home? name).getD .here, name⟩ := resolveName_here name
        rw [hresolve]
        rcases hcases with hprelude | hhere
        · rw [hprelude]
          rfl
        · rw [(hplain hhere).noPrelude, hhere]
          rfl
  · next hsimple =>
      obtain ⟨hprelude, hhere⟩ : ¬ Prelude.home? name = some home ∧ ¬ home = .here := by
        simpa [Prelude.covers] using hsimple
      rcases resolve_here_cases h with ⟨-, hhome⟩ | ⟨hne, hnames, hreach⟩
      · -- a single name stands for a type of the prelude or of the module
        cases hfound : Prelude.home? name with
        | some ns =>
            rw [hfound] at hhome
            exact absurd (hfound.trans (congrArg some hhome.symm)) hprelude
        | none =>
            rw [hfound] at hhome
            exact absurd hhome hhere
      · refine ⟨⟨?_, ?_, first_pathTo hp hnames hne hreach⟩, resolve_pathTo_here hne hreach, hlast⟩
        · exact List.append_ne_nil_of_right_ne_nil _ (List.cons_ne_nil _ _)
        · intro n hn
          exact hp.names n (hnames ▸ hn)

end Scope

/-! ## Types in the module of the root -/

namespace Root

variable {self : TypeName} {s : Scope}

/-- Arguments have shapes when all of them are types that have shapes. -/
theorem shapesOf_eq_ok {args : List Source.Argument} {shapes : List Shape} :
    shapesOf self s args = .ok shapes ↔ ∃ ts, args = ts.map .type ∧
      List.Forall₂ (fun t shape => shapeOf self s t = .ok shape) ts shapes := by
  induction args generalizing shapes with
  | nil =>
      refine ⟨?_, ?_⟩
      · intro h
        obtain rfl := Except.ok.inj (show (.ok [] : Except TypeRefusal _) = .ok shapes from h)
        exact ⟨[], rfl, .nil⟩
      · rintro ⟨ts, hts, hall⟩
        obtain rfl := List.map_eq_nil_iff.mp hts.symm
        cases hall
        rfl
  | cons a rest ih =>
      refine ⟨?_, ?_⟩
      · intro h
        cases a with
        | type t =>
            obtain ⟨shape, hshape, h⟩ := bind_eq_ok.mp h
            obtain ⟨others, hothers, h⟩ := bind_eq_ok.mp h
            obtain rfl := Except.ok.inj h
            obtain ⟨ts, rfl, hall⟩ := ih.mp hothers
            exact ⟨t :: ts, rfl, .cons hshape hall⟩
        | lifetime => cases h
        | other written => cases h
      · rintro ⟨ts, hts, hall⟩
        cases hall with
        | nil => cases hts
        | @cons t shape ts shapes hshape hall =>
            obtain ⟨rfl, rfl⟩ := List.cons.inj hts
            exact bind_eq_ok.mpr ⟨shape, hshape, bind_eq_ok.mpr
              ⟨shapes, ih.mpr ⟨ts, rfl, hall⟩, rfl⟩⟩

end Root

/-- What is related to a list, one by one, has something in it that it is related to. -/
theorem exists_of_forall₂ {α β : Type} {R : α → β → Prop} {as : List α} {bs : List β}
    (h : List.Forall₂ R as bs) : ∀ b ∈ bs, ∃ a ∈ as, R a b := by
  intro b hb
  obtain ⟨i, hi, rfl⟩ := List.mem_iff_getElem.mp hb
  have hi' : i < as.length := h.length_eq ▸ hi
  exact ⟨as[i], List.getElem_mem hi', h.get hi' hi⟩

/-- The shapes that can stand for types of the module have plain names. -/
def Shape.PlainHere (s : Shape) : Prop := ∀ u ∈ s.walk, u.home = .here → IsPlainName u.name

theorem getLast?_inlinePath (home : Namespace) (name : String) :
    (inlinePath home name).names.getLast? = some name := by
  unfold inlinePath
  split
  · rfl
  · exact List.getLast?_concat

/-- No path that is written is the word for the root itself. -/
theorem inlinePath_ne_self {home : Namespace} {name : String} (hne : home.segments ≠ [])
    (hplain : home = .here → IsPlainName name) : inlinePath home name ≠ .ofName "Self" := by
  intro heq
  have hname : name = "Self" := by
    have hlast := getLast?_inlinePath home name
    rw [heq] at hlast
    exact (Option.some.inj hlast).symm
  subst hname
  by_cases hsimple : (Prelude.covers home "Self" || home == .here) = true
  · have hcases : Prelude.home? "Self" = some home ∨ home = .here := by
      simpa [Prelude.covers] using hsimple
    rcases hcases with hprelude | hhere
    · cases hprelude
    · exact (hplain hhere).notSelf rfl
  · rw [inlinePath, if_neg hsimple] at heq
    have hnames : home.segments ++ ["Self"] = ["Self"] := congrArg Source.Path.names heq
    exact hne (List.append_left_eq_self.mp hnames)

namespace StoreDescription

variable {d : StoreDescription} {home : Namespace} {name root : String} {shapes : List Shape}

/-- A type in the module of the root is written by its path there. -/
theorem written_inline_eq (hd : d.home = .here) (hne : home.segments ≠ []) (name : String)
    (shapes : List Shape) :
    let w := d.written .inline (.mk home name shapes)
    w.path = inlinePath home name ∧ w.arguments = shapes.map (d.written .inline) ∧
      w.text = w.path.toText ++ Shape.bracketed (w.arguments.map WrittenType.text) := by
  have hnameable : d.nameable .inline home name =
      (Prelude.covers home name || home == .here) := by
    rw [nameable, hd]
  intro w
  by_cases hsimple : (Prelude.covers home name || home == .here) = true
  · have hw : w = .simple name (shapes.map (d.written .inline)) := by
      rw [← hnameable] at hsimple
      exact (written.eq_1 d .inline home name shapes).trans (if_pos hsimple)
    rw [hw, inlinePath, if_pos hsimple, WrittenType.text]
    refine ⟨rfl, rfl, ?_⟩
    simp [WrittenType.path, WrittenType.arguments, Source.Path.toText, Source.Path.ofName]
  · have hw : w = .qualified home name (shapes.map (d.written .inline)) := by
      rw [← hnameable] at hsimple
      exact (written.eq_1 d .inline home name shapes).trans (if_neg hsimple)
    rw [hw, inlinePath, if_neg hsimple, WrittenType.text]
    exact ⟨rfl, rfl, congrArg (· ++ _) (Namespace.toText_pathTo hne name).symm⟩

/-- A type is read as it stands if the path to it and its arguments are. -/
theorem written_inline_node (hd : d.home = .here) (hne : home.segments ≠ [])
    (hlegible : (inlinePath home name).Legible)
    (hresolve : (Scope.lenient .here).resolve (inlinePath home name) = .ok ⟨home, name⟩)
    (htakes : shapes ≠ [] → TakesArguments name) (hplain : home = .here → IsPlainName name)
    (hargs : ∀ s ∈ shapes, (d.written .inline s).Legible ∧
      Root.shapeOf ⟨.here, root⟩ (.lenient .here) (d.written .inline s).expr = .ok s) :
    (d.written .inline (.mk home name shapes)).Legible ∧
      Root.shapeOf ⟨.here, root⟩ (.lenient .here) (d.written .inline (.mk home name shapes)).expr
        = .ok (.mk home name shapes) := by
  obtain ⟨hpath, harguments, htext⟩ := written_inline_eq hd hne name shapes
  refine ⟨.mk htext (hpath ▸ hlegible) ?_ ?_ ?_, ?_⟩
  · intro hsome
    refine ⟨name, hpath ▸ getLast?_inlinePath home name, htakes ?_⟩
    rintro rfl
    exact hsome harguments
  · intro hself
    exact absurd (hpath ▸ hself) (inlinePath_ne_self hne hplain)
  · intro a ha
    rw [harguments] at ha
    obtain ⟨s, hs, rfl⟩ := List.mem_map.mp ha
    exact (hargs s hs).1
  · rw [WrittenType.expr_eq, hpath, harguments, List.map_map, Root.shapeOf, hresolve]
    have hshapes : Root.shapesOf ⟨.here, root⟩ (.lenient .here)
        (shapes.map fun s => Source.Argument.type (d.written .inline s).expr) = .ok shapes := by
      refine Root.shapesOf_eq_ok.mpr ⟨shapes.map fun s => (d.written .inline s).expr, ?_, ?_⟩
      · rw [List.map_map]
        rfl
      · rw [List.forall₂_map_left_iff, List.forall₂_same]
        exact fun s hs => (hargs s hs).2
    exact congrArg (Except.map (Shape.mk home name)) hshapes

/-- **A type is recovered from what is written for it** in the module of the root, with its arguments
    at every depth. -/
theorem written_inline (hd : d.home = .here) (hroot : Source.IsPathName root)
    {t : Source.TypeExpr} {s : Shape} (ht : t.Legible)
    (hs : Root.shapeOf ⟨.here, root⟩ (.lenient .here) t = .ok s) (hplain : s.PlainHere) :
    (d.written .inline s).Legible ∧
      Root.shapeOf ⟨.here, root⟩ (.lenient .here) (d.written .inline s).expr = .ok s := by
  -- the induction is on the type that was declared, with its arguments
  induction ht generalizing s with
  | itself =>
      obtain rfl := Except.ok.inj hs
      have hname : IsPlainName root := hplain _ (Shape.mem_walk_self _) rfl
      have hpath : inlinePath .here root = .ofName root := if_pos (by simp)
      refine written_inline_node hd (List.cons_ne_nil _ _) ?_ ?_ (fun h => absurd rfl h)
        (fun _ => hname) (fun s hs => by cases hs)
      · rw [hpath]
        refine ⟨List.cons_ne_nil _ _, fun n hn => List.mem_singleton.mp hn ▸ hroot, fun _ htry => ?_⟩
        exact hname.notTry (Option.some.inj htry)
      · rw [hpath]
        refine (Scope.resolveName_here root).trans ?_
        rw [hname.noPrelude]
        rfl
  | @path p args hp htakes hargs ih =>
      rw [Root.shapeOf] at hs
      split at hs
      · next found hresolve =>
          obtain ⟨home, name⟩ := found
          obtain ⟨shapes, hshapes, rfl⟩ := map_eq_ok.mp hs
          obtain ⟨ts, rfl, hall⟩ := Root.shapesOf_eq_ok.mp hshapes
          have hname : home = .here → IsPlainName name := hplain _ (Shape.mem_walk_self _)
          obtain ⟨hlegible, hinline, hlast⟩ := Scope.resolve_inlinePath hp hresolve hname
          refine written_inline_node hd (Scope.nonempty_of_resolve_here hresolve) hlegible hinline
            ?_ hname ?_
          · intro hne
            have hsome : ts.map Source.Argument.type ≠ [] := by
              intro hnil
              rw [List.map_eq_nil_iff.mp hnil, List.forall₂_nil_left_iff] at hall
              exact hne hall
            obtain ⟨last, hlast', htakes⟩ := htakes hsome
            obtain rfl := Option.some.inj (hlast'.symm.trans hlast)
            exact htakes
          · intro s hs
            obtain ⟨t, ht, hshape⟩ := exists_of_forall₂ hall s hs
            exact ih t (List.mem_map_of_mem ht) hshape fun u hu =>
              hplain u (Shape.walk_argument hs hu)
      · cases hs
  | call =>
      rw [Root.shapeOf] at hs
      split at hs <;> cases hs
  | paren inner ih => exact ih hs hplain
  | other => cases hs

end StoreDescription

/-! ## Declarations with the types that are written -/

namespace Source

/-- Fields with the types that texts give, in order. -/
def Field.withTypes? : List Field → List String → Option (List Field)
  | f :: fs, text :: texts => do
    let (type, written) ← typeOfText text
    let rest ← withTypes? fs texts
    return { f with type, written } :: rest
  | fs, _ => some fs

/-- A declaration with the types that texts give for its fields, in order. -/
def Declaration.withTypes? (d : Declaration) (texts : List String) : Option Declaration :=
  match d.body with
  | .named fields => (Field.withTypes? fields texts).map fun fs => { d with body := .named fs }
  | _ => some d

end Source

/-- The types of the fields as they are written in the module of the root. -/
def StoreDescription.inlineTexts (d : StoreDescription) : List String :=
  d.fields.map fun f => (d.written .inline f.shape).text

namespace Root

variable {r : Root} {d : Source.Declaration} {desc : StoreDescription}

theorem describeFields_eq_ok {fs : List Source.Field} {ds : List FieldDescription} :
    r.describeFields fs = .ok ds ↔ List.Forall₂ (fun f fd => r.describeField f = .ok fd) fs ds := by
  induction fs generalizing ds with
  | nil =>
      rw [List.forall₂_nil_left_iff]
      exact ⟨fun h => (Except.ok.inj h).symm, fun h => h ▸ rfl⟩
  | cons f rest ih =>
      rw [describeFields, List.forall₂_cons_left_iff]
      refine ⟨?_, ?_⟩
      · intro h
        obtain ⟨first, hfirst, h⟩ := bind_eq_ok.mp h
        obtain ⟨others, hothers, h⟩ := bind_eq_ok.mp h
        exact ⟨first, others, hfirst, ih.mp hothers, (Except.ok.inj h).symm⟩
      · rintro ⟨first, others, hfirst, hothers, rfl⟩
        exact bind_eq_ok.mpr ⟨first, hfirst, bind_eq_ok.mpr ⟨others, ih.mpr hothers, rfl⟩⟩

/-- A field is described alike with any type of the same shape. -/
theorem describeField_of_shape {f : Source.Field} {fd : FieldDescription}
    (h : r.describeField f = .ok fd) {t : Source.TypeExpr} (written : List Token)
    (ht : shapeOf ⟨r.home, r.name⟩ r.scope t = .ok fd.shape) :
    r.describeField { f with type := t, written } = .ok fd := by
  obtain ⟨hname, hfree⟩ := describeField_name h
  simp only [describeField, if_neg hfree, ht]
  rw [← hname]

/-- Fields are described alike with texts of types of the same shapes. -/
theorem describeFields_withTypes? {fs : List Source.Field} {ds : List FieldDescription}
    {text : FieldDescription → String} (h : r.describeFields fs = .ok ds)
    (htexts : ∀ fd ∈ ds, ∃ t written, Source.typeOfText (text fd) = some (t, written) ∧
      shapeOf ⟨r.home, r.name⟩ r.scope t = .ok fd.shape) :
    ∃ fs', Source.Field.withTypes? fs (ds.map text) = some fs' ∧ r.describeFields fs' = .ok ds := by
  rw [describeFields_eq_ok] at h
  induction h with
  | nil => exact ⟨[], rfl, rfl⟩
  | @cons f fd fs ds hf hfs ih =>
      obtain ⟨t, written, htext, hshape⟩ := htexts fd List.mem_cons_self
      obtain ⟨fs', hfs', hds⟩ := ih fun g hg => htexts g (List.mem_cons_of_mem fd hg)
      refine ⟨{ f with type := t, written } :: fs', ?_, ?_⟩
      · rw [List.map_cons, Source.Field.withTypes?, htext]
        exact Option.bind_eq_some_iff.mpr
          ⟨(t, written), rfl, Option.bind_eq_some_iff.mpr ⟨fs', hfs', rfl⟩⟩
      · rw [describeFields_eq_ok] at hds ⊢
        exact .cons (describeField_of_shape hf written hshape) hds

theorem not_generic_of_describeBody {ds : List FieldDescription} (h : r.describeBody = .ok ds) :
    r.declaration.generic = false := by
  by_contra hne
  rw [describeBody, if_pos (eq_true_of_ne_false hne)] at h
  cases h

/-- Fields that are described alike give the declaration the same description. -/
theorem describe_withFields (h : (alone d).describe = .ok desc) {fs : List Source.Field}
    (hfs : (alone d).describeFields fs = .ok desc.fields) :
    (alone { d with body := .named fs }).describe = .ok desc := by
  have hbody := (describe_ok h).1
  have hbody' : (alone { d with body := .named fs }).describeBody = .ok desc.fields := by
    have hfs' : (alone { d with body := .named fs }).describeFields fs = .ok desc.fields := by
      rw [describeFields_eq_ok] at hfs ⊢
      exact hfs
    have hgeneric : d.generic = false := not_generic_of_describeBody hbody
    have hgeneric' : (alone { d with body := .named fs }).declaration.generic = false := hgeneric
    rw [describeBody, if_neg (ne_true_of_eq_false hgeneric')]
    refine bind_eq_ok.mpr ⟨desc.fields, hfs', ?_⟩
    rw [describeBody_separate hbody]
    rfl
  unfold describe at h ⊢
  rw [hbody] at h
  rw [hbody']
  exact h

/-- **A declaration keeps its description when its types are replaced by those that are written for
    them in its own module**, where the types of the module have plain names. -/
theorem describe_inlineTexts {text : String} (htext : Source.declarationOfText text = some d)
    (h : (alone d).describe = .ok desc)
    (hplain : ∀ s ∈ desc.shapes, s.home = .here → IsPlainName s.name) :
    ∃ d', d.withTypes? desc.inlineTexts = some d' ∧ (alone d').describe = .ok desc := by
  have hd := Source.legible_of_declarationOfText htext
  obtain ⟨hbody, -, hhome, -⟩ := describe_ok h
  have hname : Source.IsPathName d.name := ⟨hd.word, Or.inl (Or.inl hd.identifier)⟩
  unfold Source.Declaration.withTypes?
  split
  · next fields hfields =>
      obtain ⟨fs, hfs, hds⟩ := describeBody_ok hbody
      obtain rfl : fields = fs := by
        rw [show (alone d).declaration.body = .named fields from hfields] at hfs
        exact Except.ok.inj hfs
      have htexts : ∀ fd ∈ desc.fields, ∃ t written,
          Source.typeOfText (desc.written .inline fd.shape).text = some (t, written) ∧
            shapeOf ⟨.here, d.name⟩ (.lenient .here) t = .ok fd.shape := by
        intro fd hfd
        obtain ⟨f, hf, hshape⟩ := exists_of_forall₂ (describeFields_eq_ok.mp hds) fd hfd
        obtain ⟨hlegible, hexpr⟩ := StoreDescription.written_inline hhome hname
          (hd.body fields hfields f hf) (describeField_ok hshape) fun s hs =>
            hplain s (List.mem_flatMap.mpr ⟨fd, hfd, hs⟩)
        obtain ⟨written, hwritten⟩ := typeOfText_written hlegible
        exact ⟨_, written, hwritten, hexpr⟩
      obtain ⟨fs', hfs', hds'⟩ := describeFields_withTypes? hds htexts
      refine ⟨{ d with body := .named fs' }, ?_, ?_⟩
      · rw [StoreDescription.inlineTexts, hfs']
        rfl
      · exact describe_withFields h hds'
  · exact ⟨d, rfl, h⟩

/-- What a test of a text's declaration and of its description finds out. -/
theorem exists_of_describeText (text : String) (test : Source.Declaration → StoreDescription → Bool)
    (h : (match Source.declarationOfText text with
      | some d => match (alone d).describe with
        | .ok desc => test d desc
        | .error _ => false
      | none => false) = true) :
    ∃ d desc, Source.declarationOfText text = some d ∧ (alone d).describe = .ok desc ∧
      test d desc = true := by
  split at h
  · next d hd =>
      split at h
      · next desc hdesc => exact ⟨d, desc, hd, hdesc, h⟩
      · cases h
  · cases h

/-- Whether the fields are a list of imported rows and a box with the type `Page` itself. -/
def holdsPage (desc : StoreDescription) : Bool :=
  match desc.fields with
  | [⟨_, .mk vec _ [.mk grid _ []]⟩, ⟨_, .mk box _ [.mk _ own []]⟩] =>
    vec != .here && grid != .here && box != .here && own == "Page"
  | _ => false

theorem describe_inlineTexts_page : ∃ d desc d',
    Source.declarationOfText "struct Page \x7b rows: Vec<super::grid::Row>, next: Box<Self> \x7d"
      = some d ∧ (alone d).describe = .ok desc ∧ desc.fields.length = 2 ∧
    (∀ s ∈ desc.shapes, s.home = .here → IsPlainName s.name) ∧
    d.withTypes? desc.inlineTexts = some d' ∧ (alone d').describe = .ok desc := by
  obtain ⟨d, desc, hd, hdesc, htest⟩ := exists_of_describeText
    "struct Page \x7b rows: Vec<super::grid::Row>, next: Box<Self> \x7d"
    (fun _ desc => holdsPage desc) (by decide +kernel)
  unfold holdsPage at htest
  split at htest
  · next vec _ grid _ box _ _ own hfields =>
      simp only [Bool.and_eq_true, bne_iff_ne, beq_iff_eq] at htest
      obtain ⟨⟨⟨hvec, hgrid⟩, hbox⟩, rfl⟩ := htest
      have hpage : IsPlainName "Page" := ⟨by decide, by decide, by decide⟩
      have hplain : ∀ s ∈ desc.shapes, s.home = .here → IsPlainName s.name := by
        intro s hs hhome
        simp only [StoreDescription.shapes, hfields, List.flatMap_cons, List.flatMap_nil,
          Shape.walk, List.map_cons, List.map_nil, List.flatten_cons, List.flatten_nil,
          List.append_nil, List.cons_append, List.nil_append, List.mem_cons, List.not_mem_nil,
          or_false] at hs
        rcases hs with rfl | rfl | rfl | rfl
        · exact absurd hhome hvec
        · exact absurd hhome hgrid
        · exact absurd hhome hbox
        · exact hpage
      obtain ⟨d', hd', hdesc'⟩ := describe_inlineTexts hd hdesc hplain
      exact ⟨d, desc, d', hd, hdesc, by rw [hfields]; rfl, hplain, hd', hdesc'⟩
  · cases htest

/-- Whether the one field has the type `try` of the module itself. -/
def holdsOwnTry (d : Source.Declaration) (desc : StoreDescription) : Bool :=
  match d.body, desc.fields with
  | .named [_], [⟨_, .mk home name []⟩] => home == .here && name == "try"
  | _, _ => false

/-- A type of the module that is called `try` is written by a name that is no type. -/
theorem unreadable_own_try : ∃ d desc,
    Source.declarationOfText "struct A \x7b x: self::try \x7d" = some d ∧
    (alone d).describe = .ok desc ∧
    (∀ s ∈ desc.shapes, s.home = .here → Prelude.home? s.name = none ∧ s.name ≠ "Self") ∧
    d.withTypes? desc.inlineTexts = none := by
  obtain ⟨d, desc, hd, hdesc, htest⟩ := exists_of_describeText
    "struct A \x7b x: self::try \x7d"
    holdsOwnTry (by decide +kernel)
  unfold holdsOwnTry at htest
  split at htest
  · next f _ home name hbody hfields =>
      simp only [Bool.and_eq_true, beq_iff_eq] at htest
      obtain ⟨rfl, rfl⟩ := htest
      refine ⟨d, desc, hd, hdesc, ?_, ?_⟩
      · intro s hs _
        obtain rfl : s = .mk .here "try" [] := by
          simpa [StoreDescription.shapes, hfields, Shape.walk] using hs
        exact ⟨by decide, by decide⟩
      · have htexts : desc.inlineTexts = ["try"] := by
          have hhome : desc.home = .here := (describe_ok hdesc).2.2.1
          have hnameable : desc.nameable .inline .here "try" = true := by
            simp [StoreDescription.nameable, hhome]
          have hwritten : desc.written .inline (.mk .here "try" []) = .simple "try" [] :=
            (StoreDescription.written.eq_1 ..).trans (if_pos hnameable)
          rw [StoreDescription.inlineTexts, hfields, List.map_singleton, hwritten]
          simp [WrittenType.text, Shape.bracketed]
        have hunread : (Source.typeOfText "try").isNone = true := by decide +kernel
        rw [htexts, Source.Declaration.withTypes?, hbody]
        simp [Source.Field.withTypes?, Option.isNone_iff_eq_none.mp hunread]
  · cases htest

end Root

end ObservableStore
