import ObservableStore.Proofs.FileTree.Listing

/-!
# `Proofs.FileTree.Remove` — trees without some files

A file that is removed is not seen any more, and everything else is seen as before (`look_remove`).
So a tree without some files (`without`) differs from the whole one by these files only
(`look_without`).
-/

namespace ObservableStore.FileTree

variable {t u : FileTree} {p q : List String} {n m : String} {gone : List (List String)}
variable {entries : List (String × FileTree)}

/-! ## Entries that are removed -/

theorem lookup_filter_self (n : String) (entries : List (String × FileTree)) :
    (entries.filter fun e => e.1 != n).lookup n = none := by
  rw [List.lookup_eq_none_iff]
  intro e he
  have hne := (List.mem_filter.mp he).2
  rw [bne_iff_ne] at hne ⊢
  exact Ne.symm hne

theorem lookup_filter_other (h : m ≠ n) (entries : List (String × FileTree)) :
    (entries.filter fun e => e.1 != n).lookup m = entries.lookup m := by
  induction entries with
  | nil => rfl
  | cons e rest ih =>
      obtain ⟨k, u⟩ := e
      by_cases hk : k = n
      · have hmk : (m == k) = false := beq_eq_false_iff_ne.mpr (hk ▸ h)
        rw [List.filter_cons_of_neg (by simpa using hk), ih, List.lookup_cons, hmk]
      · rw [List.filter_cons_of_pos (by simpa using hk), List.lookup_cons, List.lookup_cons, ih]

/-! ## One file -/

theorem find?_remove_self (t : FileTree) (n : String) (rest : List String) :
    (t.remove (n :: rest)).find? (n :: rest) = none := by
  induction rest generalizing t n with
  | nil =>
      cases t with
      | file c => rfl
      | directory entries =>
          rw [remove, if_pos (by rfl), find?_cons, lookup_filter_self]
          rfl
  | cons m rest ih =>
      cases t with
      | file c => rfl
      | directory entries =>
          rw [remove, if_neg (by simp)]
          cases hchild : entries.lookup n with
          | none =>
              rw [find?_cons, hchild]
              rfl
          | some child =>
              rw [find?_cons, lookup_setEntry_self]
              exact ih child m

/-- What does not lie at a position or below it is seen when the position is removed. -/
theorem sight_remove (h : ¬ q <+: p) : sight ((t.remove q).find? p) = sight (t.find? p) := by
  induction q generalizing t p with
  | nil => exact absurd List.nil_prefix h
  | cons n rest ih =>
      cases t with
      | file c => rfl
      | directory entries =>
          rw [remove]
          split
          · next hlast =>
              cases p with
              | nil => rfl
              | cons m p =>
                  have hne : m ≠ n := by
                    rintro rfl
                    rw [List.isEmpty_iff.mp hlast] at h
                    exact h ((List.prefix_cons_inj m).mpr List.nil_prefix)
                  rw [find?_cons, lookup_filter_other hne, find?_cons]
          · split
            · next child hchild =>
                cases p with
                | nil => rfl
                | cons m p =>
                    by_cases hm : m = n
                    · subst hm
                      rw [find?_cons, lookup_setEntry_self, find?_cons, hchild]
                      exact ih fun hp => h ((List.prefix_cons_inj m).mpr hp)
                    · rw [find?_cons, lookup_setEntry_other _ _ hm, find?_cons]
            · rfl

/-- What is seen at a position is decided by what lies there. -/
theorem look_eq_of_sight {t t' : FileTree} (h : sight (t'.find? p) = sight (t.find? p)) :
    t'.look p = t.look p := by
  rw [look, look, seen?, seen?]
  cases hp : t.find? p with
  | none =>
      rw [hp] at h
      rcases hp' : t'.find? p with _ | ⟨_ | _⟩
      · rfl
      · rw [hp'] at h
        cases h
      · rw [hp'] at h
        cases h
  | some u =>
      rw [hp] at h
      cases hp' : t'.find? p with
      | none =>
          rw [hp'] at h
          cases u <;> cases h
      | some u' =>
          rw [hp'] at h
          exact h

/-- **A file that is removed is not seen any more**, and nothing else changes. -/
theorem look_remove (hq : isOutward q = false) (hfile : t.look q ≠ .directory) (p : List String) :
    (t.remove q).look p = if p = q then .nothing else t.look p := by
  have hne : q ≠ [] := by
    rintro rfl
    cases hq
  obtain ⟨n, rest, rfl⟩ := List.exists_cons_of_ne_nil hne
  have hself := find?_remove_self t n rest
  by_cases hp : p = n :: rest
  · rw [if_pos hp, hp, look_nothing, seen?, hself, hq]
    rfl
  · rw [if_neg hp]
    refine look_eq_of_sight ?_
    by_cases hprefix : n :: rest <+: p
    · -- nothing lies below a file
      obtain ⟨more, rfl⟩ := hprefix
      obtain ⟨m, more, rfl⟩ : ∃ m rest', more = m :: rest' := by
        refine List.exists_cons_of_ne_nil ?_
        rintro rfl
        exact hp (List.append_nil _)
      rw [find?_append, find?_append, hself]
      rcases hthere : t.find? (n :: rest) with _ | ⟨c | entries⟩
      · rfl
      · rfl
      · exact absurd (look_directory.mpr ⟨entries, seen?_of_find? hthere⟩) hfile
    · exact sight_remove hprefix

theorem WellFormed.remove (h : t.WellFormed) : (t.remove q).WellFormed := by
  induction q generalizing t with
  | nil => exact h
  | cons n rest ih =>
      cases h with
      | file c => exact .file c
      | @directory entries distinct named each =>
          have hform : (FileTree.directory entries).WellFormed := .directory distinct named each
          rw [FileTree.remove]
          split
          · refine .directory (distinct.sublist (List.filter_sublist.map Prod.fst)) ?_ ?_
            · exact fun e he => named e (List.mem_filter.mp he).1
            · exact fun e he => each e (List.mem_filter.mp he).1
          · split
            · next child hchild =>
                have hmem := mem_of_lookup hchild
                exact hform.setEntry (ih (each _ hmem)) (named _ hmem)
            · exact hform

/-! ## Any number of files -/

/-- A tree without the files at some positions. -/
def without (t : FileTree) (gone : List (List String)) : FileTree := gone.foldl remove t

/-- **A tree without some files** differs from the whole one by these files only. -/
theorem look_without (h : ∀ q ∈ gone, isOutward q = false ∧ t.look q ≠ .directory)
    (p : List String) :
    (t.without gone).look p = if p ∈ gone then .nothing else t.look p := by
  induction gone generalizing t with
  | nil => rfl
  | cons q rest ih =>
      obtain ⟨hq, hfile⟩ := h q List.mem_cons_self
      have hremoved := look_remove hq hfile
      have hrest : ∀ r ∈ rest, isOutward r = false ∧ (t.remove q).look r ≠ .directory := by
        intro r hr
        obtain ⟨hout, hr⟩ := h r (List.mem_cons_of_mem q hr)
        refine ⟨hout, ?_⟩
        rw [hremoved]
        split
        · intro heq
          cases heq
        · exact hr
      show ((t.remove q).without rest).look p = _
      rw [ih hrest, hremoved]
      by_cases hmem : p ∈ rest
      · rw [if_pos hmem, if_pos (List.mem_cons_of_mem q hmem)]
      · by_cases hpq : p = q
        · rw [if_neg hmem, if_pos hpq, if_pos (hpq ▸ List.mem_cons_self)]
        · rw [if_neg hmem, if_neg hpq, if_neg (List.not_mem_cons_of_ne_of_not_mem hpq hmem)]

theorem WellFormed.without (h : t.WellFormed) : (t.without gone).WellFormed := by
  induction gone generalizing t with
  | nil => exact h
  | cons q rest ih => exact ih h.remove

end ObservableStore.FileTree
