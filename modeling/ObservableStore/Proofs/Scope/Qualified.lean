import ObservableStore.Proofs.Scope.Alias
import ObservableStore.Proofs.Token.Identifier
import ObservableStore.Proofs.Wrapper.ReadBack

/-!
# `Proofs.Scope.Qualified` — qualified paths mean the same in every module

The qualified path of a name is written so that it can stand in any module of the crate. It begins with
`crate`, which no scope gives another meaning, or with two colons, behind which no scope is asked
(`resolve_pathTo`). Whatever a module declares and imports, the path is read back as the namespace and
the name that it was written for.

A namespace that begins with `self` or `super` has no such path: what it means depends on the module
it is read in. `qualified_everywhere` says that these are the only exceptions.
-/

namespace ObservableStore

open Source (IsPathName)

variable {ns : Namespace} {name : String}

/-! ## Paths read back -/

/-- **A path that can be written is read as it is written.** -/
theorem Source.pathOfText_toText {p : Source.Path} (hp : p.Legible) :
    Source.pathOfText p.toText = some p := by
  obtain ⟨ts, hlexed, hspells, -⟩ := lexed_path hp Continues.nothing.ends .nil
  rw [List.append_nil] at hlexed
  have hmark : p.toText.toList.head? ≠ some Token.byteOrderMark := by
    have hnothing := ne_mark_of_legible hp []
    rwa [List.append_nil] at hnothing
  -- nothing stands behind the last name, so it is read without arguments
  have hlast (last : String) (h : p.names.getLast? = some last) :
      Source.Reads (Source.Grammar.pathName (Source.Grammar.rulesFor ts) false) [.word last]
        (last, none) [] :=
    Source.Grammar.reads_pathName (hp.names last (List.mem_of_getLast? h)) (Source.isOp_nil "<") rfl
  have hform : Source.Reads (Source.Grammar.pathOf (Source.Grammar.rulesFor ts) false) ts
      (Source.Grammar.pathForm p.rooted false (Source.withArguments none p.names)) [] :=
    Source.Grammar.reads_pathOf hspells hp hlast (Nat.le_refl _) (Source.isOp_nil "::")
  have hpath : (Source.Grammar.pathForm p.rooted false (Source.withArguments none p.names)).path
      = p := by
    rw [Source.Grammar.pathForm, Source.map_fst_withArguments]
  obtain ⟨_, hread⟩ := hform.bind (f := fun q => Pure.pure q.path) Source.Reads.pure []
  rw [Source.pathOfText, Source.Grammar.readText, hlexed.ofChars hmark]
  show Source.Reader.readAll
    (Source.Grammar.pathOf (Source.Grammar.rulesFor ts) false >>= fun q => Pure.pure q.path) ts = some p
  rw [Source.Reader.readAll, hread, hpath]
  rfl

/-- The path to a name can be written. -/
theorem Namespace.legible_pathTo (hwritten : ns.asWritten = false)
    (hsegments : ∀ n ∈ ns.segments, IsPathName n) (hname : IsPathName name) :
    (ns.pathTo name).Legible := by
  refine ⟨by simp [pathTo], ?_, ?_⟩
  · intro n hn
    rcases List.mem_append.mp hn with hn | hn
    · exact hsegments n hn
    · exact List.mem_singleton.mp hn ▸ hname
  · -- without two colons in front it begins with one of the three words
    intro hrelative
    obtain ⟨segments, asWritten⟩ := ns
    obtain rfl : asWritten = false := hwritten
    cases segments with
    | nil => cases hrelative
    | cons first rest =>
        intro hhead
        obtain rfl : first = "try" := Option.some.inj hhead
        have hrooted : (pathTo ⟨"try" :: rest, false⟩ name).rooted = true := rfl
        exact Bool.false_ne_true (hrelative.symm.trans hrooted)

/-! ## Paths resolved -/

namespace Scope

/-- Behind two colons no scope is asked, and none gives `crate` another meaning. -/
theorem resolve_pathTo (s : Scope) (hwritten : ns.asWritten = false) {first : String}
    (hhead : ns.segments.head? = some first) (hfirst : first ≠ "self" ∧ first ≠ "super")
    (name : String) : s.resolve (ns.pathTo name) = .ok ⟨ns, name⟩ := by
  obtain ⟨segments, asWritten⟩ := ns
  obtain rfl : asWritten = false := hwritten
  obtain ⟨rest, rfl⟩ : ∃ rest, segments = first :: rest := List.head?_eq_some_iff.mp hhead
  have hsplit : split (first :: rest ++ [name]) = .ok ⟨.ofSegments (first :: rest), name⟩ :=
    split_concat _ name (List.cons_ne_nil first rest)
  by_cases hcrate : first = "crate"
  · subst hcrate
    obtain ⟨second, others, hrest⟩ : ∃ second others, rest ++ [name] = second :: others :=
      List.exists_cons_of_ne_nil (by simp)
    rw [List.cons_append, hrest] at hsplit
    show s.resolve ⟨false, "crate" :: (rest ++ [name])⟩ = _
    rw [hrest]
    have hknown : s.knowsRoot "crate" = true := rfl
    simp only [resolve, hknown, Bool.not_true, Bool.and_false, Bool.false_eq_true, if_false]
    exact hsplit
  · have hrooted : (Namespace.pathTo ⟨first :: rest, false⟩ name)
        = ⟨true, first :: rest ++ [name]⟩ := by
      simp [Namespace.pathTo, Namespace.isRelative, Namespace.isRelativeWord, hcrate, hfirst]
    rw [hrooted]
    exact hsplit

/-- From the root of the crate `self` leads to the root, and `super` nowhere. -/
theorem resolve_pathTo_root {first : String} {rest : List String}
    (hfirst : first = "self" ∨ first = "super") :
    (strictly .crateRoot).resolve (Namespace.pathTo ⟨first :: rest, false⟩ name)
      ≠ .ok ⟨⟨first :: rest, false⟩, name⟩ := by
  obtain ⟨second, others, hrest⟩ : ∃ second others, rest ++ [name] = second :: others :=
    List.exists_cons_of_ne_nil (by simp)
  rcases hfirst with rfl | rfl
  · have hpath : Namespace.pathTo ⟨"self" :: rest, false⟩ name = ⟨false, "self" :: second :: others⟩ := by
      rw [← hrest]
      rfl
    have hlead : (strictly .crateRoot).resolve ⟨false, "self" :: second :: others⟩
        = split ("crate" :: rest ++ [name]) := by
      rw [List.cons_append, hrest]
      rfl
    rw [hpath, hlead, split_concat _ name (List.cons_ne_nil _ _)]
    intro heq
    have hsegments : some "crate" = some "self" :=
      congrArg (fun t => t.home.segments.head?) (Except.ok.inj heq)
    exact absurd hsegments (by decide)
  · have hpath : Namespace.pathTo ⟨"super" :: rest, false⟩ name
        = ⟨false, "super" :: second :: others⟩ := by
      rw [← hrest]
      rfl
    rw [hpath]
    intro heq
    cases heq

/-- **Qualified paths mean the same in every module.** Take a namespace that is not kept as written,
    and a name. What is written for them is read, in whatever scope, as a path to that name of that
    namespace, if and only if the namespace begins neither with `self` nor with `super`. Its segments
    and the name are identifiers or the words that stand for one in a path. -/
theorem qualified_everywhere (ns : Namespace) (name : String) (hwritten : ns.asWritten = false)
    (hne : ns.segments ≠ []) (hsegments : ∀ n ∈ ns.segments, IsPathName n)
    (hname : IsPathName name) :
    (∀ s : Scope, (Source.pathOfText (ns.qualify name)).map s.resolve = some (.ok ⟨ns, name⟩)) ↔
      ns.segments.head? ≠ some "self" ∧ ns.segments.head? ≠ some "super" := by
  rw [← Namespace.toText_pathTo hne,
    Source.pathOfText_toText (Namespace.legible_pathTo hwritten hsegments hname)]
  simp only [Option.map_some, Option.some.injEq]
  constructor
  · intro hall
    obtain ⟨segments, asWritten⟩ := ns
    obtain rfl : asWritten = false := hwritten
    obtain ⟨first, rest, rfl⟩ := List.exists_cons_of_ne_nil hne
    refine ⟨fun hself => ?_, fun hsuper => ?_⟩
    · exact resolve_pathTo_root (Or.inl (Option.some.inj hself)) (hall (strictly .crateRoot))
    · exact resolve_pathTo_root (Or.inr (Option.some.inj hsuper)) (hall (strictly .crateRoot))
  · intro hfirst s
    obtain ⟨first, hhead⟩ : ∃ first, ns.segments.head? = some first :=
      ⟨_, List.head?_eq_some_head hne⟩
    rw [hhead] at hfirst
    exact resolve_pathTo s hwritten hhead
      ⟨fun h => hfirst.1 (congrArg some h), fun h => hfirst.2 (congrArg some h)⟩ name

/-- A module of `crate::ui` that declares a module `std` of its own still names the error of the
    standard library by `::std::fmt::Error`; `std::fmt::Error` is an item below its own module. -/
theorem qualified_everywhere_error :
    let ns := Namespace.ofSegments ["std", "fmt"]
    let s := (strictly (.ofSegments ["crate", "ui"])).run
      [.declareModule "std", .importAs "fmt" ["self", "std", "text"]]
    ns.asWritten = false ∧ ns.segments ≠ [] ∧ (∀ n ∈ ns.segments, IsPathName n) ∧
    IsPathName "Error" ∧ ns.segments.head? ≠ some "self" ∧ ns.segments.head? ≠ some "super" ∧
    ns.qualify "Error" = "::std::fmt::Error" ∧
    (Source.pathOfText "::std::fmt::Error").map s.resolve = some (.ok ⟨ns, "Error"⟩) ∧
    s.resolve ⟨false, ["std", "fmt", "Error"]⟩
      = .ok ⟨.ofSegments ["crate", "ui", "std", "fmt"], "Error"⟩ := by
  intro ns s
  have hidentifier (n : String) (hn : n ∈ ["std", "fmt", "Error"]) : IsPathName n := by
    have hall : ∀ n ∈ ["std", "fmt", "Error"],
        Text.isIdentifierText n.toList = true ∧ Source.Ahead.isIdentifier n = true := by decide
    exact ⟨Lexeme.isWord_iff.mpr (Or.inl (hall n hn).1), Or.inl (Or.inl (hall n hn).2)⟩
  have hsegments : ∀ n ∈ ns.segments, IsPathName n :=
    fun n hn => hidentifier n (List.mem_append_left ["Error"] hn)
  have hname : IsPathName "Error" := hidentifier "Error" (by decide)
  have hall := (qualified_everywhere ns "Error" rfl (by decide) hsegments hname).mpr (by decide)
  exact ⟨rfl, by decide, hsegments, hname, by decide, by decide, rfl, hall s, rfl⟩

end Scope

end ObservableStore
