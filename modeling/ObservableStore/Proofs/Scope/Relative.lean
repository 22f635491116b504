import ObservableStore.Proofs.Scope.Alias

/-!
# `Proofs.Scope.Relative` — where paths lead that go up or stay

A path that begins with `super` goes up from the module it is written in, once for each `super`, and
one that begins with `self` stays there. From a module at depth `n` below the root of its crate, `k`
times `super` leads to the module around it at depth `n - k`, and above the root when `k > n`
(`ascend_supers`).

No namespace that comes of such a path has a `self` or a `super` left in it. This is an invariant of
the scope (`Fixed`): a scope that is made by paths with these words in front only (`Straight`) knows
none with the words elsewhere, and resolves none to one (`Fixed.run`, `Fixed.resolve`).

The words go wrong in one place. Behind `self` the word `super` is taken for the name of a module, so
a path that goes up from `self` does not go up at all (`self_super_stays_below`).
`relative_paths_land` says that this is the only exception.
-/

namespace ObservableStore.Scope

variable {s : Scope} {home : Namespace} {here names more path full : List String} {name : String}

/-! ## Going up -/

/-- The module around one below the root of the crate. -/
theorem parent?_concat (init : List String) (hname : name ≠ "super") :
    (Namespace.ofSegments ("crate" :: (init ++ [name]))).parent?
      = some (.ofSegments ("crate" :: init)) :=
  Namespace.parent?_child (.ofSegments ("crate" :: init)) name (List.cons_ne_nil _ _) hname

/-- **Going up `k` times.** From depth `n` this leads to depth `n - k`, and above the root of the
    crate when there are not so many modules around. -/
theorem ascend_supers (home : Namespace) (k : Nat) (hhere : "super" ∉ here)
    (hnames : names.head? ≠ some "super") :
    ascend home (.ofSegments ("crate" :: here)) (List.replicate k "super" ++ names)
      = if k ≤ here.length then .ok ("crate" :: here.take (here.length - k) ++ names)
        else .error (.aboveRoot home) := by
  induction k generalizing here with
  | zero =>
      rw [List.replicate_zero, List.nil_append, if_pos (Nat.zero_le _), Nat.sub_zero,
        List.take_length]
      cases names with
      | nil => rw [List.append_nil]; rfl
      | cons first rest =>
          have hfirst : first ≠ "super" := fun heq => hnames (congrArg some heq)
          rw [ascend, if_neg hfirst]
          rfl
  | succ k ih =>
      rw [List.replicate_succ, List.cons_append, ascend, if_pos rfl]
      rcases List.eq_nil_or_concat here with rfl | ⟨init, last, rfl⟩
      · -- there is nothing above the root
        have hnone : (Namespace.ofSegments ["crate"]).parent? = none := rfl
        simp [hnone]
      · rw [List.concat_eq_append] at hhere ⊢
        have hlast : last ≠ "super" := by
          rintro rfl
          exact hhere (by simp)
        have hinit : "super" ∉ init := fun hmem => hhere (List.mem_append_left _ hmem)
        have hlength : (init ++ [last]).length = init.length + 1 := by simp
        simp only [parent?_concat init hlast, ih hinit, hlength, Nat.add_le_add_iff_right,
          Nat.add_sub_add_right]
        rw [List.take_append_of_le_length (Nat.sub_le _ _)]

/-- The same for a path that is written in the module. -/
theorem absolute_supers (hhome : s.home = .ofSegments ("crate" :: here)) (k : Nat)
    (hhere : "super" ∉ here) (hnames : names.head? ≠ some "super") :
    s.absolute (List.replicate (k + 1) "super" ++ names)
      = if k + 1 ≤ here.length then .ok ("crate" :: here.take (here.length - (k + 1)) ++ names)
        else .error (.aboveRoot s.home) := by
  have hascend := ascend_supers s.home (k + 1) hhere hnames
  rw [← hhome] at hascend
  exact hascend

/-- What stays in the module is put below it, whatever it is. -/
theorem absolute_self (hhome : s.home = .ofSegments ("crate" :: here)) (names : List String) :
    s.absolute ("self" :: names) = .ok ("crate" :: here ++ names) := by
  have hsegments : s.home.segments = "crate" :: here := congrArg Namespace.segments hhome
  rw [← hsegments]
  rfl

/-! ## Paths with their words in front -/

/-- There is no `self` and no `super` among segments. -/
def NamesOnly (segments : List String) : Prop := "self" ∉ segments ∧ "super" ∉ segments

instance (segments : List String) : Decidable (NamesOnly segments) :=
  inferInstanceAs (Decidable (_ ∧ _))

/-- A path whose words stand in front of its names: `self` once, `super` any number of times, or
    neither of them. -/
inductive Straight : List String → Prop
  | names {names : List String} (h : NamesOnly names) : Straight names
  | self {names : List String} (h : NamesOnly names) : Straight ("self" :: names)
  | supers {names : List String} (k : Nat) (h : NamesOnly names) :
    Straight (List.replicate (k + 1) "super" ++ names)

namespace NamesOnly

theorem of_subset (h : NamesOnly names) (hsub : more ⊆ names) : NamesOnly more :=
  ⟨fun hmem => h.1 (hsub hmem), fun hmem => h.2 (hsub hmem)⟩

theorem append (h : NamesOnly names) (h' : NamesOnly more) : NamesOnly (names ++ more) :=
  ⟨by simp [h.1, h'.1], by simp [h.2, h'.2]⟩

theorem root (h : NamesOnly names) : NamesOnly ("crate" :: names) := by
  have hcrate : NamesOnly ["crate"] := by decide
  exact hcrate.append h

theorem head_ne_super (h : NamesOnly names) : names.head? ≠ some "super" :=
  fun heq => h.2 (List.mem_of_head? heq)

/-- A namespace that is split off has no other segments than the path. -/
theorem split (h : NamesOnly names) {t : TypeName} (ht : Scope.split names = .ok t) :
    NamesOnly t.home.segments := by
  obtain ⟨rfl, -, -⟩ := split_eq_ok ht
  exact h.of_subset (List.subset_append_left _ _)

end NamesOnly

theorem Prelude.namesOnly_of_home? {ns : Namespace} (h : Prelude.home? name = some ns) :
    NamesOnly ns.segments := by
  unfold Prelude.home? at h
  split at h
  · obtain rfl := Option.some.inj h
    decide
  · split at h <;> simp only [Option.some.injEq, reduceCtorEq] at h <;> subst h <;> decide

/-! ## Scopes made by such paths -/

/-- A strict scope of a module below the root of its crate that knows only paths without `self` and
    `super`. -/
structure Fixed (here : List String) (s : Scope) : Prop where
  strict : s.strict = true
  home : s.home = .ofSegments ("crate" :: here)
  here : NamesOnly here
  imports : ∀ {name full}, s.imported? name = some full → NamesOnly full
  globs : ∀ ns ∈ s.globs, NamesOnly ns.segments

/-- A step whose path, if it has one, has its words in front. -/
def Step.Straight : Step → Prop
  | .importAs _ path => Scope.Straight path
  | .importAll path => Scope.Straight path
  | .declareType _ => True
  | .declareModule _ => True

/-- A path that can be written with its words in front; behind `::` there are none. -/
def StraightPath (p : Source.Path) : Prop :=
  if p.rooted then NamesOnly p.names else Straight p.names

namespace Fixed

theorem strictly (h : NamesOnly here) : Fixed here (strictly (.ofSegments ("crate" :: here))) where
  strict := rfl
  home := rfl
  here := h
  imports hfull := by cases hfull
  globs ns hns := by cases hns

/-- **An absolute path has no words left.** -/
theorem absolute (hs : Fixed here s) (hpath : Straight path) (h : s.absolute path = .ok full) :
    NamesOnly full := by
  cases hpath with
  | self hnames =>
      rw [absolute_self hs.home] at h
      obtain rfl := Except.ok.inj h
      exact hs.here.root.append hnames
  | supers k hnames =>
      rw [absolute_supers hs.home k hs.here.2 hnames.head_ne_super] at h
      split at h
      · obtain rfl := Except.ok.inj h
        exact (hs.here.of_subset (List.take_subset _ _)).root.append hnames
      · cases h
  | names hnames =>
      cases path with
      | nil => cases h
      | cons first rest =>
          have hrest : NamesOnly rest := hnames.of_subset (List.subset_cons_self first rest)
          have hself : first ≠ "self" := by
            rintro rfl
            exact hnames.1 List.mem_cons_self
          have hsuper : first ≠ "super" := by
            rintro rfl
            exact hnames.2 List.mem_cons_self
          simp only [Scope.absolute, if_neg hself, if_neg hsuper] at h
          split at h
          · obtain rfl := Except.ok.inj h
            exact hnames
          split at h
          · -- the path goes through a module of the scope
            obtain rfl := Except.ok.inj h
            rw [Namespace.child_segments, hs.home]
            have hfirst : NamesOnly [first] := ⟨by simp [Ne.symm hself], by simp [Ne.symm hsuper]⟩
            exact (hs.here.root.append hfirst).append hrest
          cases himport : s.imported? first with
          | some found =>
              rw [himport] at h
              obtain rfl := Except.ok.inj h
              exact (hs.imports himport).append hrest
          | none =>
              rw [himport] at h
              obtain rfl := Except.ok.inj h
              exact hnames

/-- One more thing in a scope. -/
theorem apply (hs : Fixed here s) {step : Step} (hstep : step.Straight) :
    Fixed here (s.apply step) := by
  cases step with
  | declareType name => exact ⟨hs.strict, hs.home, hs.here, hs.imports, hs.globs⟩
  | declareModule name => exact ⟨hs.strict, hs.home, hs.here, hs.imports, hs.globs⟩
  | importAs given path =>
      rw [Scope.apply, addImport]
      cases hpath : s.absolute path with
      | error e => exact hs
      | ok full =>
          refine ⟨hs.strict, hs.home, hs.here, ?_, hs.globs⟩
          intro name found hfound
          simp only [imported?, List.lookup_cons] at hfound
          split at hfound
          · obtain rfl := Option.some.inj hfound
            exact hs.absolute hstep hpath
          · exact hs.imports hfound
  | importAll path =>
      rw [Scope.apply, addGlob]
      cases hpath : s.absolute path with
      | error e => exact hs
      | ok full =>
          refine ⟨hs.strict, hs.home, hs.here, hs.imports, ?_⟩
          intro ns hns
          rcases List.mem_append.mp hns with hold | hnew
          · exact hs.globs ns hold
          · obtain rfl := List.mem_singleton.mp hnew
            exact hs.absolute hstep hpath

/-- Any number of things more. -/
theorem run (hs : Fixed here s) {steps : List Step} (hsteps : ∀ step ∈ steps, step.Straight) :
    Fixed here (s.run steps) := by
  induction steps generalizing s with
  | nil => exact hs
  | cons step rest ih =>
      exact ih (hs.apply (hsteps step List.mem_cons_self))
        fun later hlater => hsteps later (List.mem_cons_of_mem step hlater)

theorem resolveName (hs : Fixed here s) {t : TypeName} (h : s.resolveName name = .ok t) :
    NamesOnly t.home.segments := by
  unfold Scope.resolveName at h
  split at h
  · obtain rfl := Except.ok.inj h
    exact hs.home ▸ hs.here.root
  cases himport : s.imported? name with
  | some full =>
      rw [himport] at h
      exact (hs.imports himport).split h
  | none =>
      rw [himport] at h
      cases hprelude : Prelude.home? name with
      | some ns =>
          rw [hprelude] at h
          obtain rfl := Except.ok.inj h
          exact Prelude.namesOnly_of_home? hprelude
      | none =>
          simp only [hprelude] at h
          split at h
          · next glob hglobs =>
              obtain rfl := Except.ok.inj h
              exact hs.globs glob (by simp [hglobs])
          · -- a strict scope refuses the name here
            rw [hs.strict] at h
            simp only [Bool.not_true, Bool.false_eq_true, if_false] at h
            split at h <;> cases h

/-- **What resolves has no words left.** -/
theorem resolve (hs : Fixed here s) {p : Source.Path} (hp : StraightPath p) {t : TypeName}
    (h : s.resolve p = .ok t) : NamesOnly t.home.segments := by
  unfold Scope.resolve at h
  unfold StraightPath at hp
  split at h
  · next hrooted =>
      rw [if_pos hrooted] at hp
      exact hp.split h
  · next hrooted =>
      rw [if_neg hrooted] at hp
      split at h
      · cases h
      · exact hs.resolveName h
      · next first rest _ hnames =>
          simp only [hs.strict, Bool.not_true, Bool.false_and, Bool.false_eq_true, if_false] at h
          obtain ⟨full, hfull, hsplit⟩ := bind_eq_ok.mp h
          exact (hs.absolute (hnames ▸ hp) hfull).split hsplit

end Fixed

/-! ## Where relative paths land -/

/-- **Relative paths land where the language puts them.** In a strict scope of a module at depth `n`
    below the root of its crate, names behind `super`, `k` times, lead to the item with these names
    below the module `k` modules further up, and nowhere when `k > n`. Behind `self` they lead to the
    item below the module itself. Behind `self` and then `super`, `k` times, they should lead where
    they lead without `self`, and do so if and only if there is no `super`; otherwise each `super` is
    taken for a module. In a scope made by paths with these words in front only, no path of this form
    resolves to a namespace with one of the words. -/
theorem relative_paths_land (s : Scope) (here below : List String) (name : String) (k : Nat)
    (hstrict : s.strict = true) (hhome : s.home = .ofSegments ("crate" :: here))
    (hhere : NamesOnly here) (hnames : NamesOnly (below ++ [name])) :
    let item (module : List String) : TypeName := ⟨.ofSegments ("crate" :: module ++ below), name⟩
    let supers := List.replicate k "super"
    let landing : Except ResolveError TypeName :=
      if k ≤ here.length then .ok (item (here.take (here.length - k))) else .error (.aboveRoot s.home)
    (k ≠ 0 → s.resolve ⟨false, supers ++ (below ++ [name])⟩ = landing) ∧
    s.resolve ⟨false, "self" :: (below ++ [name])⟩ = .ok (item here) ∧
    s.resolve ⟨false, "self" :: (supers ++ (below ++ [name]))⟩ = .ok (item (here ++ supers)) ∧
    (s.resolve ⟨false, "self" :: (supers ++ (below ++ [name]))⟩ = landing ↔ k = 0) ∧
    ∀ steps, (∀ step ∈ steps, step.Straight) → ∀ p t, StraightPath p →
      ((strictly s.home).run steps).resolve p = .ok t → NamesOnly t.home.segments := by
  intro item supers landing
  have hitem (module : List String) :
      Scope.split ("crate" :: module ++ (below ++ [name])) = .ok (item module) := by
    rw [← List.append_assoc]
    exact split_concat _ name (by simp)
  have hself (names : List String) : s.resolve ⟨false, "self" :: (names ++ (below ++ [name]))⟩
      = .ok (item (here ++ names)) := by
    have hlength : 2 ≤ ("self" :: (names ++ (below ++ [name]))).length := by
      simp only [List.length_cons, List.length_append]
      omega
    rw [resolve_path hstrict hlength, if_neg Bool.false_ne_true, absolute_self hhome,
      ← List.append_assoc, ← hitem]
    rfl
  refine ⟨?_, ?_, hself supers, ?_, ?_⟩
  · intro hk
    obtain ⟨j, rfl⟩ := Nat.exists_eq_succ_of_ne_zero hk
    have hlength : 2 ≤ (supers ++ (below ++ [name])).length := by
      simp only [supers, List.length_append, List.length_replicate, List.length_singleton]
      omega
    rw [resolve_path hstrict hlength, if_neg Bool.false_ne_true,
      absolute_supers hhome j hhere.2 hnames.head_ne_super]
    simp only [landing]
    split
    · exact hitem _
    · rfl
  · have hnothing := hself []
    rwa [List.nil_append, List.append_nil] at hnothing
  · rw [hself supers]
    constructor
    · intro hlands
      simp only [landing] at hlands
      split at hlands
      · -- the two namespaces have different lengths unless there is no `super`
        have hsegments := congrArg (fun t => t.home.segments.length) (Except.ok.inj hlands)
        simp only [item, supers, Namespace.ofSegments, List.length_append, List.length_cons,
          List.length_replicate, List.length_take] at hsegments
        omega
      · cases hlands
    · intro hk
      simp [landing, supers, hk]
  · intro steps hsteps p t hp ht
    rw [hhome] at ht
    exact ((Fixed.strictly hhere).run hsteps).resolve hp ht

/-- In `crate::a::b`, which imports the item `shared::Row` of the module around it, the same item is
    `super::super::a::shared::Row`. -/
theorem relative_paths_land_two_up :
    let home := Namespace.ofSegments ["crate", "a", "b"]
    let steps : List Step := [.importAs "Row" ["super", "shared", "Row"]]
    let s := (strictly home).run steps
    let row : TypeName := ⟨.ofSegments ["crate", "a", "shared"], "Row"⟩
    s.strict = true ∧ s.home = .ofSegments ("crate" :: ["a", "b"]) ∧ NamesOnly ["a", "b"] ∧
    NamesOnly (["a", "shared"] ++ ["Row"]) ∧ (∀ step ∈ steps, step.Straight) ∧
    s.resolve ⟨false, ["super", "super", "a", "shared", "Row"]⟩ = .ok row ∧
    s.resolve (.ofName "Row") = .ok row ∧ NamesOnly row.home.segments := by
  intro home steps s row
  have hsteps : ∀ step ∈ steps, step.Straight := by
    intro step hstep
    obtain rfl := List.mem_singleton.mp hstep
    exact Straight.supers 0 (by decide)
  obtain ⟨hup, -, -, -, hfixed⟩ :=
    relative_paths_land s ["a", "b"] ["a", "shared"] "Row" 2 rfl rfl (by decide) (by decide)
  have hname : StraightPath (.ofName "Row") := Straight.names (by decide)
  exact ⟨rfl, rfl, by decide, by decide, hsteps, hup (by decide), rfl,
    hfixed steps hsteps (.ofName "Row") row hname rfl⟩

/-- **A path that goes up from `self` stays below the module.** In `crate::a::b` the path `super::X`
    stands for `crate::a::X`, and `self::super::X` for the item `X` of a module `super` of
    `crate::a::b`. In the root of the crate the first one stands for nothing, and the second one for
    the item of a module again. -/
theorem self_super_stays_below :
    let s := strictly (.ofSegments ["crate", "a", "b"])
    s.resolve ⟨false, ["super", "X"]⟩ = .ok ⟨.ofSegments ["crate", "a"], "X"⟩ ∧
    s.resolve ⟨false, ["self", "super", "X"]⟩
      = .ok ⟨.ofSegments ["crate", "a", "b", "super"], "X"⟩ ∧
    (strictly .crateRoot).resolve ⟨false, ["super", "X"]⟩ = .error (.aboveRoot .crateRoot) ∧
    (strictly .crateRoot).resolve ⟨false, ["self", "super", "X"]⟩
      = .ok ⟨.ofSegments ["crate", "super"], "X"⟩ := by
  intro s
  exact ⟨rfl, rfl, rfl, rfl⟩

end ObservableStore.Scope
