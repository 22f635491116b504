import ObservableStore.Proofs.FileTree.Alike
import ObservableStore.Proofs.Sink.NoOverwrite

/-!
# `Proofs.Sink.Output` — what a sink does to a tree

Where the output root stands for a place, a sink only adds entries on the way to it and below it
(`Added`, `write_grown`). A unit that was refused because of the tree is refused again for the same
reason once the tree has grown, and a unit whose file is still there is taken without a change of the
tree (`write_again`). On trees that look alike near the output root a sink does the same
(`write_alike`).
-/

namespace ObservableStore.DirectorySink

open FileTree

open Location (IsName)

variable {S : List String → Prop} {P : List String → FileTree → Prop} {root : Location}
variable {s s' : DirectorySink} {t t' : FileTree} {u : GeneratedUnit} {base names place : List String}

/-! ## Entries that are added -/

/-- The names of the directories that lead to a unit from the output root. -/
def directories (u : GeneratedUnit) : List String :=
  u.home.segments.dropWhile (· == "crate")

/-- On the way to a place, at it or below it. -/
def Near (place p : List String) : Prop := Below p place ∨ Below place p

/-- Entries of a kind that a sink adds around its output root. -/
structure Added (root : Location) (place p : List String) (new : FileTree) : Prop where
  near : Near place p
  isName : ∀ n, p.getLast? = some n → IsName n
  /-- A directory is made only where the location can be tried. -/
  allowed : ∀ more, p = place ++ more → new = empty →
    refusal? (.ofComponents (root.components ++ more.map .name)) = none

/-- Names on the way to a unit are near the output root. -/
theorem near_on_way {front more : List String} (hnames : ∀ n ∈ names ++ more, Inside n)
    (h : front <+: names ++ more) : Near (base ++ names) (base ++ front) := by
  rcases List.prefix_or_prefix_of_prefix h (List.prefix_append names more) with
    ⟨rest, rfl⟩ | ⟨rest, rfl⟩
  · refine Or.inl ⟨rest, fun n hn => hnames n ?_, (List.append_assoc _ _ _).symm⟩
    exact List.mem_append_left _ (List.mem_append_right _ hn)
  · refine Or.inr ⟨rest, fun n hn => hnames n ?_, (List.append_assoc _ _ _).symm⟩
    exact h.subset (List.mem_append_right _ hn)

/-- What is in front of a location that can be tried can be tried as well. -/
theorem refusal?_front {cs : List Component} {more : List String} (hne : cs ≠ [])
    (hc : ∀ n, .name n ∈ cs → IsName n) (hmore : ∀ n ∈ more, IsName n)
    (h : refusal? (.ofComponents (cs ++ more.map .name)) = none) :
    refusal? (.ofComponents cs) = none := by
  induction more using List.reverseRecOn with
  | nil => rwa [List.map_nil, List.append_nil] at h
  | append_singleton more n ih =>
      rw [List.map_append, List.map_singleton, ← List.append_assoc] at h
      have hfront : ∀ m ∈ more, IsName m := fun m hm => hmore m (List.mem_append_left _ hm)
      refine ih hfront (refusal?_around (fun m hm => ?_) ?_ (hmore n (by simp)) h)
      · rcases List.mem_append.mp hm with hm | hm
        · exact hc m hm
        · obtain ⟨m', hm', heq⟩ := List.mem_map.mp hm
          exact Component.name.inj heq ▸ hfront m' hm'
      · exact fun heq => hne (List.append_eq_nil_iff.mp heq).1

theorem around_pathOf (s : DirectorySink) (hu : u.Ordinary) :
    (s.pathOf u).components.dropLast = s.root.components ++ (directories u).map .name := by
  rw [components_pathOf s hu, GeneratedUnit.names, List.map_append, List.map_singleton,
    ← List.append_assoc, List.dropLast_concat]
  rfl

/-- The location of a unit ends in its file name. -/
theorem endsInDot_pathOf (s : DirectorySink) (hu : u.Ordinary) :
    (s.pathOf u).endsInDot = false := by
  have hne : u.names ≠ [] := List.append_ne_nil_of_right_ne_nil _ (List.cons_ne_nil _ _)
  rw [pathOf, GeneratedUnit.relativePath_eq, Location.join_ofSegments _ hne hu.names,
    GeneratedUnit.names, List.foldl_append]
  exact Location.endsInDot_push _ hu.2

section

variable (h : Anchored t s.root.components base names) (hu : u.Ordinary)
include h hu

/-- The names to a unit follow those to the output root. -/
theorem anchored_pathOf :
    Anchored t (s.pathOf u).components base (names ++ directories u ++ [u.fileName]) := by
  rw [components_pathOf s hu, List.append_assoc]
  exact h.append hu.names

theorem added_of_storedAt {p : List String} {new : FileTree}
    (hstored : StoredAt (s.pathOf u) base (names ++ directories u) u.fileName p new) :
    Added s.root (base ++ names) p new := by
  have hanchored := anchored_pathOf h hu
  have hnames := hanchored.isName
  have hinside := hanchored.inside
  rw [List.append_assoc] at hnames hinside
  rcases hstored with ⟨hallowed, rfl, front, hne, hfront, rfl⟩ | ⟨rfl, s, rfl⟩
  · have hfront' := hfront.trans (List.prefix_append _ [u.fileName])
    rw [List.append_assoc] at hfront'
    refine ⟨near_on_way hinside hfront', fun n hn => hnames n ?_, fun more heq _ => ?_⟩
    · rw [List.getLast?_append_of_ne_nil _ hne] at hn
      exact hfront'.subset (List.mem_of_getLast? hn)
    · -- the directory is on the way to the one whose location was tried
      rw [List.append_assoc] at heq
      obtain rfl := List.append_cancel_left heq
      obtain ⟨rest, hrest⟩ := (List.prefix_append_right_inj names).mp hfront
      rw [around_pathOf s hu, ← hrest, List.map_append, ← List.append_assoc] at hallowed
      have hmore : ∀ n ∈ more ++ rest, IsName n := by
        intro n hn
        rw [hrest] at hn
        exact hu.1 n ((List.dropWhile_sublist _).subset hn)
      refine refusal?_front ?_ ?_ (fun n hn => hmore n (List.mem_append_right _ hn)) hallowed
      · obtain ⟨above, heq, -⟩ := h.follow
        intro hnil
        rw [heq, List.append_assoc, ← List.map_append] at hnil
        exact hne (List.map_eq_nil_iff.mp (List.append_eq_nil_iff.mp hnil).2)
      · intro n hn
        rcases List.mem_append.mp hn with hn | hn
        · exact h.names n hn
        · obtain ⟨m, hm, heq⟩ := List.mem_map.mp hn
          exact Component.name.inj heq ▸ hmore m (List.mem_append_left _ hm)
  · refine ⟨?_, ?_, fun _ _ heq => by cases heq⟩
    · rw [List.append_assoc, List.append_assoc]
      exact near_on_way hinside (List.prefix_refl _)
    · intro n hn
      rw [List.getLast?_concat] at hn
      exact Option.some.inj hn ▸ hu.2

/-- **A sink only adds entries near its output root.** -/
theorem write_grown : Grown (Added s.root (base ++ names)) t (s.write t u).2.2 := by
  have hstored := (store_grown (anchored_pathOf h hu) (endsInDot_pathOf s hu) u.source).mono
    fun _ _ => added_of_storedAt h hu
  rw [write]
  cases s.check u with
  | error e => exact .refl
  | ok =>
      by_cases hholds : holds t (s.pathOf u) u.source = true
      · simp only [if_pos hholds]
        exact .refl
      · simp only [if_neg hholds]
        cases hstore : t.store (s.pathOf u) u.source with
        | mk fault t' =>
            rw [hstore] at hstored
            cases fault <;> exact hstored

end

/-! ## A unit that was written before -/

theorem check_congr (hwritten : s'.written = s.written) (hplaces : s'.places = s.places)
    (u : GeneratedUnit) : s'.check u = s.check u := by
  rw [check, check, placed?, placed?, hwritten, hplaces]

/-- **A unit is refused again or found.** A sink that has taken the same units refuses a unit for the
    same reason on a tree that has grown, and a unit whose file is still there it takes as one that
    was there; in either case the tree stays as it is. -/
theorem write_again (h : Anchored t s.root.components base names) (hu : u.Ordinary)
    (hroot : s'.root = s.root) (hwritten : s'.written = s.written) (hplaces : s'.places = s.places)
    (hg : Grown (Added s.root (base ++ names)) (s.write t u).2.2 t')
    (hheld : (s.write t u).1 = none → t'.readText (s.pathOf u) = .ok u.source) :
    s'.write t' u =
      ((s.write t u).1, if (s.write t u).1 = none then s'.record u true else s', t') := by
  have hpath : s'.pathOf u = s.pathOf u := by rw [pathOf, pathOf, hroot]
  have hheld' : (s.write t u).1 = none → holds t' (s.pathOf u) u.source = true := by
    intro hnone
    simp [holds, hheld hnone]
  rw [write, check_congr hwritten hplaces, hpath]
  rw [write] at hg hheld' ⊢
  cases hcheck : s.check u with
  | error e => rfl
  | ok =>
      rw [hcheck] at hg hheld'
      simp only at hg hheld' ⊢
      by_cases hholds : holds t (s.pathOf u) u.source = true
      · rw [if_pos hholds] at hheld'
        rw [if_pos hholds, if_pos (hheld' rfl)]
        rfl
      · rw [if_neg hholds] at hg hheld'
        rw [if_neg hholds]
        cases hstore : t.store (s.pathOf u) u.source with
        | mk fault t₁ =>
            rw [hstore] at hg hheld'
            cases fault with
            | none =>
                rw [if_pos (hheld' rfl)]
                rfl
            | some e =>
                -- no directory was made since where this one could not be tried
                have hanchored := anchored_pathOf h hu
                have hdot := endsInDot_pathOf s hu
                have hnever : refusal? (.ofComponents (s.pathOf u).components.dropLast) ≠ none →
                    ¬ Added s.root (base ++ names) (base ++ (names ++ directories u)) empty := by
                  intro hrefused hadded
                  rw [around_pathOf s hu] at hrefused
                  exact hrefused (hadded.allowed _ (List.append_assoc _ _ _).symm rfl)
                have hfail : (t.store (s.pathOf u) u.source).1 = some e := by rw [hstore]
                have hgrown : Grown (Added s.root (base ++ names))
                    (t.store (s.pathOf u) u.source).2 t' := by rwa [hstore]
                have hnot := not_holds_of_failed hanchored hdot hfail hgrown hnever
                have hagain := store_again hanchored hdot hfail hgrown hnever
                simp [hnot, hagain]

/-! ## Trees that look alike -/

/-- **A sink does the same to trees that look alike** near its output root. -/
theorem write_alike (halike : Alike S t t') (h : Anchored t s.root.components base names)
    (h' : Anchored t' s.root.components base names) (hu : u.Ordinary)
    (hS : ∀ p, Near (base ++ names) p → S p) :
    (s.write t' u).1 = (s.write t u).1 ∧ (s.write t' u).2.1 = (s.write t u).2.1 ∧
      Alike S (s.write t u).2.2 (s.write t' u).2.2 := by
  have hanchored := anchored_pathOf h hu
  have hanchored' := anchored_pathOf h' hu
  have hway : ∀ front, front <+: names ++ directories u ++ [u.fileName] → S (base ++ front) := by
    intro front hfront
    have hinside := hanchored.inside
    rw [List.append_assoc] at hfront hinside
    exact hS _ (near_on_way hinside hfront)
  have hholds := holds_alike (s := u.source) hanchored hanchored'
    (halike _ (hway _ (List.prefix_refl _)))
  obtain ⟨hfault, hstored⟩ := store_alike halike hanchored hanchored'
    (endsInDot_pathOf s hu) hway u.source
  rw [write, write]
  cases hcheck : s.check u with
  | error e => exact ⟨rfl, rfl, halike⟩
  | ok =>
      simp only [hholds]
      by_cases hheld : holds t (s.pathOf u) u.source = true
      · rw [if_pos hheld, if_pos hheld]
        exact ⟨rfl, rfl, halike⟩
      · rw [if_neg hheld, if_neg hheld]
        cases hstore : t.store (s.pathOf u) u.source with
        | mk fault t₁ =>
            cases hstore' : t'.store (s.pathOf u) u.source with
            | mk fault' t₁' =>
                rw [hstore, hstore'] at hfault hstored
                obtain rfl : fault' = fault := hfault
                cases fault' <;> exact ⟨rfl, rfl, hstored⟩

end ObservableStore.DirectorySink
