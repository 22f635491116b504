import ObservableStore.Proofs.Outcome
import ObservableStore.Proofs.Scope.Steps
import ObservableStore.Source.Reader

/-!
# `Proofs.Scope.Alias` — a path that is imported under a new name

An import gives a name to the absolute path of what it imports. A path in a type goes through the
same absolute path, so the new name stands for what the imported path would stand for, and a longer
path that begins with the name for the imported path with the same names behind it.

A leading `::` is where the two part. It makes the path of a type absolute as it stands, but a path
that is imported is followed through the modules and the imports of its scope all the same. Both mean
the same exactly when the scope leads the path nowhere else (`import_transparent`,
`rooted_import_redirected`).
-/

namespace ObservableStore.Scope

open Source.Ahead (isIdentifier)

variable {s : Scope} {path more full : List String} {given : String}

/-! ## The import -/

/-- The tree of the import of a path under a new name. -/
def useAs (given : String) : List String → Source.UseTree
  | [] => .group []
  | [last] => .rename last given
  | name :: rest => .path name (useAs given rest)

/-- The import gives the name to the whole path. -/
theorem useSteps_useAs (above : List String) (hnonempty : path ≠ [])
    (hlast : path.getLast? ≠ some "self") (hgiven : given ≠ "_") :
    useSteps above (useAs given path) = [.importAs given (above ++ path)] := by
  induction path generalizing above with
  | nil => exact absurd rfl hnonempty
  | cons name rest ih =>
      cases rest with
      | nil =>
          have hname : name ≠ "self" := fun h => hlast (congrArg some h)
          simp only [useAs, useSteps, if_neg hgiven, if_neg hname]
      | cons next others =>
          rw [List.getLast?_cons_cons] at hlast
          have hrest : next :: others ≠ [] := List.cons_ne_nil next others
          rw [useAs, useSteps, ih (above ++ [name]) hrest hlast, List.append_assoc,
            List.singleton_append]
          exact fun h => absurd h hrest

/-- What a module sees with one more import, which no other item comes behind. -/
theorem ofItems_useAs (home : Namespace) (items : List Source.Item) (rooted : Bool)
    (hnonempty : path ≠ []) (hlast : path.getLast? ≠ some "self") (hgiven : given ≠ "_") :
    ofItems home (items ++ [.use rooted (useAs given path)])
      = (ofItems home items).addImport given path := by
  simp only [ofItems, List.foldl_append, List.foldl_cons, List.foldl_nil, addRoot, addItem,
    addUse_eq_run, useSteps_useAs [] hnonempty hlast hgiven, List.nil_append]
  rfl

theorem strict_run (s : Scope) (steps : List Step) : (s.run steps).strict = s.strict := by
  induction steps generalizing s with
  | nil => rfl
  | cons step steps ih =>
      rw [run_cons, ih, apply_eq_add]
      rfl

theorem home_run (s : Scope) (steps : List Step) : (s.run steps).home = s.home := by
  induction steps generalizing s with
  | nil => rfl
  | cons step steps ih =>
      rw [run_cons, ih, apply_eq_add]
      rfl

theorem home_ofItems (home : Namespace) (items : List Source.Item) :
    (ofItems home items).home = home := by
  rw [ofItems_eq_run, home_run]
  rfl

/-- The scope of a module refuses names that it does not know. -/
theorem strict_ofItems (home : Namespace) (items : List Source.Item) :
    (ofItems home items).strict = true := by
  rw [ofItems_eq_run, strict_run]
  rfl

/-! ## Longer paths -/

theorem ascend_append {home ns : Namespace} (h : ascend home ns path = .ok full)
    (hmore : more.head? ≠ some "super") : ascend home ns (path ++ more) = .ok (full ++ more) := by
  induction path generalizing ns with
  | nil =>
      obtain rfl := Except.ok.inj h
      cases more with
      | nil => rw [List.append_nil, List.append_nil, ascend]
      | cons name rest =>
          have hname : name ≠ "super" := fun heq => hmore (congrArg some heq)
          rw [List.nil_append, ascend, if_neg hname]
  | cons name rest ih =>
      rw [List.cons_append]
      simp only [ascend] at h ⊢
      split
      · next hname =>
          rw [if_pos hname] at h
          cases hup : ns.parent? with
          | none =>
              rw [hup] at h
              cases h
          | some up =>
              rw [hup] at h
              exact ih h
      · next hname =>
          rw [if_neg hname] at h
          obtain rfl := Except.ok.inj h
          rw [List.append_assoc, List.cons_append]

/-- The absolute path of a longer path is that of its beginning with the other names behind it. -/
theorem absolute_append (h : s.absolute path = .ok full) (hmore : more.head? ≠ some "super") :
    s.absolute (path ++ more) = .ok (full ++ more) := by
  cases path with
  | nil => cases h
  | cons first rest =>
      have hcons : first :: rest ++ more = first :: (rest ++ more) := rfl
      rw [hcons]
      simp only [absolute] at h ⊢
      -- the words that a path can begin with, then the modules and the imports of the scope
      split at h
      · next hcrate =>
          obtain rfl := Except.ok.inj h
          rw [if_pos hcrate, hcons]
      next hcrate =>
      rw [if_neg hcrate]
      split at h
      · next hself =>
          obtain rfl := Except.ok.inj h
          rw [if_pos hself, List.append_assoc]
      next hself =>
      rw [if_neg hself]
      split at h
      · next hsuper =>
          rw [if_pos hsuper, ← hcons]
          exact ascend_append h hmore
      next hsuper =>
      rw [if_neg hsuper]
      split at h
      · next hmodule =>
          obtain rfl := Except.ok.inj h
          rw [if_pos hmodule, List.append_assoc]
      next hmodule =>
      rw [if_neg hmodule]
      cases himport : s.imported? first with
      | some found =>
          rw [himport] at h
          obtain rfl := Except.ok.inj h
          rw [List.append_assoc]
      | none =>
          rw [himport] at h
          obtain rfl := Except.ok.inj h
          rw [hcons]

/-! ## The last name of a path -/

theorem split_concat (names : List String) (name : String) (h : names ≠ []) :
    split (names ++ [name]) = .ok ⟨.ofSegments names, name⟩ := by
  simp [split, h]

/-- What is split is the namespace with the name behind it. -/
theorem split_eq_ok {names : List String} {home : Namespace} {name : String}
    (h : split names = .ok ⟨home, name⟩) :
    names = home.segments ++ [name] ∧ home.segments ≠ [] ∧ home.asWritten = false := by
  rcases List.eq_nil_or_concat names with rfl | ⟨init, last, rfl⟩
  · cases h
  · by_cases hinit : init = []
    · subst hinit
      cases h
    · rw [List.concat_eq_append, split_concat _ _ hinit] at h
      obtain ⟨rfl, rfl⟩ := TypeName.mk.inj (Except.ok.inj h)
      exact ⟨List.concat_eq_append, hinit, rfl⟩

/-- A path of two names or more is known by what it stands for. -/
theorem split_eq_split_iff {path other : List String} (h : 2 ≤ path.length) :
    split other = split path ↔ other = path := by
  refine ⟨fun heq => ?_, congrArg split⟩
  have hconcat (names : List String) (hne : names ≠ []) :
      names = names.dropLast ++ [names.getLast hne] := (List.dropLast_concat_getLast hne).symm
  have hpath : path ≠ [] := List.ne_nil_of_length_pos (by omega)
  have hinit : path.dropLast ≠ [] := by
    refine List.ne_nil_of_length_pos ?_
    rw [List.length_dropLast]
    omega
  rw [hconcat path hpath, split_concat _ _ hinit] at heq
  by_cases hother : other = []
  · rw [hother] at heq
    cases heq
  rw [hconcat other hother] at heq
  by_cases hnone : other.dropLast = []
  · rw [hnone] at heq
    cases heq
  rw [split_concat _ _ hnone] at heq
  obtain ⟨hhome, hname⟩ := TypeName.mk.inj (Except.ok.inj heq)
  have hsegments : other.dropLast = path.dropLast := congrArg Namespace.segments hhome
  rw [hconcat other hother, hconcat path hpath, hsegments, hname]

/-! ## Resolution -/

/-- What a path of two names or more stands for in a strict scope. -/
theorem resolve_path (hs : s.strict = true) (h : 2 ≤ path.length) (rooted : Bool) :
    s.resolve ⟨rooted, path⟩ = if rooted then split path else s.absolute path >>= split := by
  rcases path with _ | ⟨first, _ | ⟨next, rest⟩⟩
  · simp at h
  · simp at h
  · simp only [resolve, hs, Bool.not_true, Bool.false_and]
    rfl

/-- What an imported name stands for, alone and in front of other names, if no type and no module has
    the name. -/
theorem resolve_imported (hs : s.strict = true) (hgiven : isIdentifier given = true)
    (htype : given ∉ s.types) (hmodule : given ∉ s.modules) (himport : s.imported? given = some full)
    (more : List String) : s.resolve ⟨false, given :: more⟩ = split (full ++ more) := by
  cases more with
  | nil => simp only [resolve, resolveName, if_neg htype, himport, List.append_nil]; rfl
  | cons next rest =>
      have hword : given ≠ "crate" ∧ given ≠ "self" ∧ given ≠ "super" := by
        refine ⟨?_, ?_, ?_⟩ <;> rintro rfl <;> exact absurd hgiven (by decide)
      have habsolute : s.absolute (given :: next :: rest) = .ok (full ++ next :: rest) := by
        simp only [absolute, if_neg hword.1, if_neg hword.2.1, if_neg hword.2.2, if_neg hmodule,
          himport]
      rw [resolve_path hs (by simp), if_neg Bool.false_ne_true, habsolute]
      rfl

/-- **An import is transparent.** In the scope of a module with one more import, of a path under a
    new name, the name stands for what the path stands for in the scope without the import, and so
    does a longer path that begins with the name. A path behind `::` is the exception: it does so if
    and only if the scope takes it for an absolute path without the two colons as well. -/
theorem import_transparent (home : Namespace) (items : List Source.Item) (p : Source.Path)
    (given : String) (hlength : 2 ≤ p.names.length) (hlast : p.names.getLast? ≠ some "self")
    (habsolute : ∃ full, (ofItems home items).absolute p.names = .ok full)
    (hgiven : isIdentifier given = true) (htype : given ∉ (ofItems home items).types)
    (hmodule : given ∉ (ofItems home items).modules)
    (himport : (ofItems home items).imported? given = none) :
    let before := ofItems home items
    let after := ofItems home (items ++ [.use p.rooted (useAs given p.names)])
    let kept := p.rooted = true → before.absolute p.names = .ok p.names
    (after.resolve (.ofName given) = before.resolve p ↔ kept) ∧
    ∀ more, more ≠ [] → (∀ name ∈ more, isIdentifier name = true) →
      (after.resolve ⟨false, given :: more⟩ = before.resolve ⟨p.rooted, p.names ++ more⟩ ↔ kept) := by
  intro before after kept
  obtain ⟨full, hfull⟩ := habsolute
  have hunderscore : given ≠ "_" := by
    rintro rfl
    exact absurd hgiven (by decide)
  have hafter : after = before.addImport given p.names :=
    ofItems_useAs home items p.rooted (List.ne_nil_of_length_pos (by omega)) hlast hunderscore
  have hadded : after = { before with imports := (given, full) :: before.imports } := by
    rw [hafter, addImport, hfull]
  have hstrict : before.strict = true := strict_ofItems home items
  have htype' : given ∉ after.types := by
    rw [hadded]
    exact htype
  have hmodule' : given ∉ after.modules := by
    rw [hadded]
    exact hmodule
  have himport' : after.imported? given = some full := by
    rw [hadded, imported?, List.lookup_cons, beq_self_eq_true]
  have hname (more : List String) : after.resolve ⟨false, given :: more⟩ = split (full ++ more) :=
    resolve_imported (strict_ofItems home _) hgiven htype' hmodule' himport' more
  -- the name and the path take the same way, unless the path is cut as it stands
  have hboth (more : List String) (hmore : more.head? ≠ some "super") :
      after.resolve ⟨false, given :: more⟩ = before.resolve ⟨p.rooted, p.names ++ more⟩ ↔ kept := by
    have hlong : 2 ≤ (p.names ++ more).length := by
      rw [List.length_append]
      omega
    rw [hname, resolve_path hstrict hlong]
    cases hrooted : p.rooted with
    | false =>
        rw [if_neg Bool.false_ne_true, absolute_append hfull hmore]
        exact iff_of_true rfl (fun h => absurd (hrooted.symm.trans h) Bool.false_ne_true)
    | true =>
        have hkept : kept ↔ full = p.names := by
          refine ⟨fun h => Except.ok.inj (hfull.symm.trans (h hrooted)), ?_⟩
          rintro rfl _
          exact hfull
        rw [if_pos rfl, split_eq_split_iff hlong, List.append_left_inj, hkept]
  refine ⟨?_, fun more hne hmore => hboth more ?_⟩
  · have halone := hboth [] (by simp)
    rw [List.append_nil] at halone
    exact halone
  · intro hhead
    exact absurd (hmore "super" (List.mem_of_head? hhead)) (by decide)

/-- In a module with `mod parts;`, the import `use parts::Row as Line;` makes `Line` the row of the
    module's own parts, and `Line::Cell` what lies below that row. -/
theorem import_transparent_row :
    let home := Namespace.ofSegments ["crate", "ui"]
    let items : List Source.Item := [.module "parts" none]
    let after := ofItems home (items ++ [.use false (useAs "Line" ["parts", "Row"])])
    after.resolve (.ofName "Line") = .ok ⟨.ofSegments ["crate", "ui", "parts"], "Row"⟩ ∧
    after.resolve ⟨false, ["Line", "Cell"]⟩
      = .ok ⟨.ofSegments ["crate", "ui", "parts", "Row"], "Cell"⟩ := by
  intro home items after
  obtain ⟨hname, hpath⟩ := import_transparent home items ⟨false, ["parts", "Row"]⟩ "Line"
    (by decide) (by decide) ⟨["crate", "ui", "parts", "Row"], rfl⟩ (by decide) (by decide)
    (by decide) rfl
  have hnot (h : false = true) : (ofItems home items).absolute ["parts", "Row"]
      = .ok ["parts", "Row"] := absurd h Bool.false_ne_true
  have hcell := (hpath ["Cell"] (by decide) (by decide)).mpr hnot
  exact ⟨(hname.mpr hnot).trans rfl, hcell.trans rfl⟩

/-- **An import behind `::` is led through a module of its scope.** With `mod fmt;` the path
    `::fmt::Error` of a type stands for the error of the external crate `fmt`, and after
    `use ::fmt::Error as Failure;` the name `Failure` for that of the module. -/
theorem rooted_import_redirected :
    let home := Namespace.ofSegments ["crate", "ui"]
    let items : List Source.Item := [.module "fmt" none]
    let p : Source.Path := ⟨true, ["fmt", "Error"]⟩
    let before := ofItems home items
    let after := ofItems home (items ++ [.use p.rooted (useAs "Failure" p.names)])
    (∀ name ∈ p.names, isIdentifier name = true) ∧
    (∃ full, before.absolute p.names = .ok full) ∧
    "Failure" ∉ before.types ∧ "Failure" ∉ before.modules ∧ before.imported? "Failure" = none ∧
    before.resolve p = .ok ⟨.ofSegments ["fmt"], "Error"⟩ ∧
    after.resolve (.ofName "Failure") = .ok ⟨.ofSegments ["crate", "ui", "fmt"], "Error"⟩ := by
  intro home items p before after
  exact ⟨by decide, ⟨["crate", "ui", "fmt", "Error"], rfl⟩, by decide, by decide, rfl, rfl, rfl⟩

end ObservableStore.Scope
