import ObservableStore.Proofs.Batch.Discoveries

/-!
# `Proofs.Batch.Regeneration` — a batch that is run again

A batch that is run again on the tree that it left reads the same sources, since nothing was written
into them. It delivers the same declarations to a sink that follows the first one (`Shadow`): a unit
that was taken is found in its file, one that was refused is refused again for the same reason
(`deliver_again`), and neither changes the tree. So the whole batch gives the same report, leaves the
tree as it is and counts every unit as one that was there (`generate_again`).
-/

namespace ObservableStore

open FileTree DirectorySink

open Location (IsName)

/-- A sink that has taken the same units as another one, all of which were there already. -/
structure Shadow (report : Report) (s s' : DirectorySink) : Prop where
  root : s'.root = s.root
  written : s'.written = s.written
  places : s'.places = s.places
  unchanged : s'.unchanged = report.generated.length

section

variable {o : EmitOptions} {report : Report} {s s' : DirectorySink} {t t' : FileTree} {r : Root}
variable {roots : List Root} {base names : List String} {taken : List GeneratedUnit}

/-- **A declaration that is delivered again** has the same outcome, and the tree stays as it is, where
    the tree has grown since and still has the unit if it was taken. -/
theorem deliver_again (h : Anchored t s.root.components base names) (hr : r.Placed)
    (hs : Shadow report s s')
    (hg : Grown (Added s.root (base ++ names)) (deliver destination o (s, t) r).2.2 t')
    (hheld : ∀ u, (deliver destination o (s, t) r).1 = .ok u →
      t'.readText (s.pathOf u) = .ok u.source) :
    ∃ s'', deliver destination o (s', t') r = ((deliver destination o (s, t) r).1, s'', t') ∧
      Shadow (report.add (deliver destination o (s, t) r).1)
        (deliver destination o (s, t) r).2.1 s'' := by
  cases hd : r.describe with
  | error f =>
      rw [deliver_undescribed hd, deliver_undescribed hd]
      exact ⟨s', rfl, { hs with unchanged := hs.unchanged }⟩
  | ok d =>
      rw [deliver_written hd] at hg hheld ⊢
      rw [deliver_written hd]
      have hu := ordinary_emit (o := o) hd hr
      have hagain := write_again h hu hs.root hs.written hs.places hg
      rcases write_sink s t (d.emit o) with ⟨e, t₁, hwrite⟩ | ⟨wasThere, t₁, hwrite⟩
      · rw [hwrite] at hagain ⊢
        rw [hagain fun heq => by cases heq]
        exact ⟨s', rfl, { hs with unchanged := hs.unchanged }⟩
      · rw [hwrite] at hagain hheld ⊢
        rw [hagain fun _ => hheld _ rfl]
        refine ⟨s'.record (d.emit o) true, rfl, hs.root, ?_, ?_, ?_⟩
        · simp only [record, hs.written]
        · simp only [record, hs.places]
        · simp only [record, if_true, hs.unchanged, Report.add, outcomeOf, List.length_append,
            List.length_singleton]

/-- **Declarations that are delivered again** have the same outcomes, and the tree stays as it is. -/
theorem deliverAll_again (h : Anchored t s.root.components base names) (hrec : Recorded s t taken)
    (hroots : ∀ r ∈ roots, r.Placed) (hs : Shadow report s s') :
    let last := deliverThere o (report, s, t) roots
    ∃ s'', deliverThere o (report, s', last.2.2) roots = (last.1, s'', last.2.2) ∧
      Shadow last.1 last.2.1 s'' := by
  induction roots generalizing report s s' t taken with
  | nil => exact ⟨s', rfl, hs⟩
  | cons r rest ih =>
      have hr := hroots r List.mem_cons_self
      have hrest : ∀ r' ∈ rest, r'.Placed := fun r' hr' => hroots r' (List.mem_cons_of_mem r hr')
      obtain ⟨more, hmore, htaken⟩ := deliver_recorded (o := o) hrec hr
      have hroot := deliver_root o s t r
      have hgrown := deliver_grown (o := o) h hr
      cases hfirst : deliver destination o (s, t) r with
      | mk outcome next =>
          obtain ⟨s₁, t₁⟩ := next
          rw [hfirst] at hmore htaken hroot hgrown
          simp only at hmore htaken hroot hgrown
          have h₁ : Anchored t₁ s₁.root.components base names := hroot.symm ▸ h.grown hgrown
          intro last
          have hlast : last = deliverThere o (report.add outcome, s₁, t₁) rest := by
            show deliverThere o (report, s, t) (r :: rest) = _
            rw [deliverThere, deliverAll, hfirst]
          obtain ⟨hroot', hgrown'⟩ :=
            deliverAll_grown o (report.add outcome) h₁ hrest
          obtain ⟨others, hend⟩ :=
            deliverAll_recorded o (report.add outcome) hmore hrest
          rw [← hlast] at hroot' hgrown' hend
          -- what was taken now is still in its file at the end
          have hheld : ∀ u, outcome = .ok u → last.2.2.readText (s.pathOf u) = .ok u.source := by
            intro u hu
            have hin := hend.held u (by simp [htaken u hu])
            rwa [pathOf, hroot', hroot] at hin
          have hthere : Grown (Added s.root (base ++ names))
              (deliver destination o (s, t) r).2.2 last.2.2 := by
            rw [hfirst, ← hroot]
            exact hgrown'
          obtain ⟨s₁', hagain, hs₁⟩ := deliver_again h hr hs hthere (by rw [hfirst]; exact hheld)
          rw [hfirst] at hagain hs₁
          obtain ⟨s'', hthen, hs''⟩ := ih h₁ hmore hrest hs₁
          rw [← hlast] at hthen hs''
          refine ⟨s'', ?_, hs''⟩
          rw [deliverThere, deliverAll, hagain]
          exact hthen

end

namespace Generator

variable {g : Generator} {root : Location} {t : FileTree} {place : List String}

/-- A batch that is run again gives the same report, leaves the tree as it is and counts every unit
    that it takes as one that was there. -/
structure Repeats (g : Generator) (root : Location) (t : FileTree) : Prop where
  report : (g.finalState root (g.finalState root t).2.2).1 = (g.finalState root t).1
  tree : (g.finalState root (g.finalState root t).2.2).2.2 = (g.finalState root t).2.2
  unchanged : (g.finalState root (g.finalState root t).2.2).2.1.unchanged =
    (g.finalState root t).1.generated.length

/-- **A batch can be run again** where its output root and its source directories lie apart. -/
theorem finalState_again (h : g.Apart root t place) (hplaced : g.Placed t) : g.Repeats root t := by
  obtain ⟨base, names, hanchored, rfl⟩ := h.output
  have hroots : ∀ r ∈ rootsOf (g.discoveries t), r.Placed := hplaced
  have hshadow : Shadow Report.empty (new root) (new root) := ⟨rfl, rfl, rfl, rfl⟩
  obtain ⟨s'', hagain, hshadow⟩ :=
    deliverAll_again (o := g.options) hanchored (Recorded.new root t) hroots hshadow
  obtain ⟨-, hgrown⟩ :=
    deliverAll_grown (s := new root) g.options Report.empty hanchored hroots
  have hfirst : g.finalState root t = g.take (Report.empty, new root, t) (g.discoveries t) :=
    finalState_eq h hplaced
  have htree : (g.finalState root t).2.2 =
      (deliverThere g.options (Report.empty, new root, t) (rootsOf (g.discoveries t))).2.2 := by
    rw [hfirst, take]
  have hsame : g.discoveries (g.finalState root t).2.2 = g.discoveries t := by
    rw [htree]
    exact discoveries_grown h hgrown
  have hsecond : g.finalState root (g.finalState root t).2.2 =
      g.take (Report.empty, new root, (g.finalState root t).2.2) (g.discoveries t) := by
    have hapart : g.Apart root (g.finalState root t).2.2 (base ++ names) := by
      rw [htree]
      exact h.grown hgrown
    have hplaced' : g.Placed (g.finalState root t).2.2 := by
      rw [Placed, hsame]
      exact hplaced
    rw [finalState_eq hapart hplaced', hsame]
  rw [← htree] at hagain
  rw [take, hagain] at hsecond
  refine ⟨?_, ?_, ?_⟩
  · rw [hsecond, hfirst, take]
  · rw [hsecond]
  · rw [hsecond, hfirst, take]
    exact hshadow.unchanged

/-- **Regeneration is idempotent.** Where the output root and the source directories lie apart, a
    batch that is run again gives the same report and leaves the tree exactly as it is; every unit
    that it takes it finds in its file. -/
theorem generate_again {environment : Option String} (hroot : g.outputRoot? environment = some root)
    (h : g.Apart root t place) (hplaced : g.Placed t) :
    ∃ report t', g.generate environment t = .ok (report, t') ∧
      g.generate environment t' = .ok (report, t') ∧
      (g.finalState root t').2.1.unchanged = report.generated.length := by
  obtain ⟨hreport, htree, hunchanged⟩ : g.Repeats root t := finalState_again h hplaced
  refine ⟨(g.finalState root t).1, (g.finalState root t).2.2, generate_eq hroot t, ?_, hunchanged⟩
  rw [generate_eq hroot, hreport, htree]

/-- A run over a source file, a file that is no text and a missing directory, and the run after
    it. -/
theorem generate_again_beside :
    ∃ report t', beside.generate none besideTree = .ok (report, t') ∧
      beside.generate none t' = .ok (report, t') ∧
      (beside.finalState ⟨"gen"⟩ t').2.1.unchanged = 1 ∧
      report.generated = [⟨Namespace.crateRoot, "AStore"⟩] ∧
      report.sourceErrors =
        [.unreadable ⟨"b/lib.rs"⟩ .notText, .missingDirectory ⟨"c/../a"⟩] := by
  have hroot : beside.outputRoot? none = some ⟨"gen"⟩ := rfl
  obtain ⟨report, t', hfirst, hsecond, hunchanged⟩ :=
    generate_again hroot beside_apart beside_placed
  obtain rfl : (beside.run ⟨"gen"⟩ besideTree).1 = report := congrArg Prod.fst (Except.ok.inj hfirst)
  have hgenerated : (beside.run ⟨"gen"⟩ besideTree).1.generated =
      [⟨Namespace.crateRoot, "AStore"⟩] := by decide +kernel
  refine ⟨_, t', hfirst, hsecond, ?_, hgenerated, by decide +kernel⟩
  rw [hunchanged, hgenerated]
  rfl

/-- A second run that reports other errors of sources is not the same. -/
theorem not_repeats_of_errors {n m : Nat} (hfirst : (g.finalState root t).1.sourceErrors.length = n)
    (hsecond : (g.finalState root (g.finalState root t).2.2).1.sourceErrors.length = m)
    (hne : m ≠ n) : ¬ g.Repeats root t := by
  intro hrepeats
  rw [hrepeats.report, hfirst] at hsecond
  exact hne hsecond.symm

/-- **A second run is not always the same.** The first run makes the directories that are missing on
    the way to the output root: `y` itself, which is missing only at first, or `x`, and with it
    `x/../b` is there. In a file named `...rs` a declaration has a namespace with a step up, which here
    leads back to the output root, to the file of another unit: in every run each of the two units
    replaces the other one. -/
theorem second_run_differs :
    ((overSources ["y", "a"] "x/../y/../gen").apartAsWritten ⟨"x/../y/../gen"⟩ = true ∧
      ¬ (overSources ["y", "a"] "x/../y/../gen").Repeats ⟨"x/../y/../gen"⟩ detourTree) ∧
    ((overSources ["x/../b", "a"] "x/gen").apartAsWritten ⟨"x/gen"⟩ = true ∧
      ¬ (overSources ["x/../b", "a"] "x/gen").Repeats ⟨"x/gen"⟩ detourTree) ∧
    ((overSources ["a", "src"] "gen").apartAsWritten ⟨"gen"⟩ = true ∧
      ¬ (overSources ["a", "src"] "gen").Repeats ⟨"gen"⟩ (.directory
        [("a", .directory [("lib.rs", .file (.text "#[flow_store] struct X;"))]),
          ("src", .directory
            [("...rs", .file (.text "mod gen \x7b #[flow_store] struct X; \x7d"))])])) := by
  refine ⟨⟨by decide, ?_⟩, ⟨by decide, ?_⟩, ⟨by decide, ?_⟩⟩
  · exact not_repeats_of_errors (n := 1) (m := 0) (by decide +kernel) (by decide +kernel) (by decide)
  · exact not_repeats_of_errors (n := 1) (m := 0) (by decide +kernel) (by decide +kernel) (by decide)
  · intro hrepeats
    exact absurd hrepeats.unchanged (by decide +kernel)

end Generator

end ObservableStore
