import ObservableStore.Proofs.FileTree.Keeps

/-!
# `Proofs.FileTree.Store` — what making directories and writing a file change

Making a directory and those around it changes no file, whether it succeeds or stops half way
(`only_makeDirectories`). So storing a text changes no file when it fails (`only_store_fault`).
When it succeeds, it changes at most the file that the location leads to, and that one holds the
text (`only_store`). What a single write does is said by `Written`.
-/

namespace ObservableStore.FileTree

variable {t t' : FileTree} {p : List String} {l : Location} {s : String}

/-! ## Making directories -/

/-- A directory is made where its parent has no entry of its name. -/
theorem made_of_makeDirectory {cs : List Component} (h : t.makeDirectory cs = .ok t') :
    ∃ n p entries, t.follow [] cs.dropLast = .ok p ∧ t.seen? p = some (.directory entries) ∧
      entries.lookup n = none ∧ t' = t.put (p ++ [n]) empty := by
  rw [makeDirectory] at h
  split at h
  · cases h
  · next n _ _ =>
      obtain ⟨p, hfollow, h⟩ := bind_eq_ok.mp h
      split at h
      · next entries hseen =>
          split at h
          · cases h
          · split at h
            · cases h
            · next hfree =>
                exact ⟨n, p, entries, hfollow, hseen, Option.not_isSome_iff_eq_none.mp hfree,
                  (Except.ok.inj h).symm⟩
      · cases h
      · cases h
  · obtain ⟨p, -, h⟩ := bind_eq_ok.mp h
    cases h

theorem only_makeDirectory {cs : List Component} (h : t.makeDirectory cs = .ok t') :
    ChangesOnly [] t t' := by
  obtain ⟨n, p, entries, hfollow, hseen, hfree, rfl⟩ := made_of_makeDirectory h
  have hnothing : t.find? (p ++ [n]) = none := (find?_of_seen? hseen n).trans hfree
  have hopen := (open_follow (open_nil t) hfollow).concat (not_file_of_seen? hseen) n
  refine ChangesOnly.put hopen ?_ (fun _ => rfl) ?_ (fun _ => rfl) ?_
  · intro entries heq
    rw [hnothing] at heq
    cases heq
  · intro contents heq
    rw [hnothing] at heq
    cases heq
  · intro contents heq
    cases heq

/-- Whether or not all directories can be made, no file changes. -/
theorem only_makeDirectories (t : FileTree) (cs : List Component) :
    ChangesOnly [] t (t.makeDirectories cs).2 := by
  induction cs generalizing t with
  | nil => exact .refl [] t
  | cons c above ih =>
      rw [makeDirectories]
      split
      · next t' hmade => exact only_makeDirectory hmade
      · -- the directories around it come first, and then it is tried once more
        have habove := ih t
        split
        · next e t' heq => exact heq ▸ habove
        · next t' heq =>
            rw [heq] at habove
            split
            · next t'' hmade => exact habove.trans (only_makeDirectory hmade)
            · exact habove
      · exact .refl [] t

/-! ## Writing a file -/

/-- A text is written below a directory, where no directory is. -/
structure Written (t : FileTree) (l : Location) (s : String) (base : List String) (n : String)
    (t' : FileTree) : Prop where
  allowed : refusal? l = none
  follow : t.follow [] l.components.dropLast = .ok base
  named : l.components.getLast? = some (.name n)
  endsInName : l.asksForDirectory = false
  short : isLongName n = false
  isDirectory : ∃ entries, t.seen? base = some (.directory entries)
  free : ∀ entries, t.find? (base ++ [n]) ≠ some (.directory entries)
  result : t' = t.put (base ++ [n]) (.file (.text s))

theorem written_of_writeText (h : t.writeText l s = .ok t') : ∃ base n, Written t l s base n t' := by
  rw [writeText] at h
  split at h
  · cases h
  · next hallowed =>
      split at h
      · obtain ⟨p, -, h⟩ := bind_eq_ok.mp h
        cases h
      · next hdot =>
          obtain ⟨base, hfollow, h⟩ := bind_eq_ok.mp h
          split at h
          · next entries n hseen hnamed =>
              split at h
              · cases h
              · next hfree =>
                  rw [Bool.or_eq_true, not_or] at hfree
                  have hends : l.asksForDirectory = false :=
                    Location.asksForDirectory_eq_false.mpr
                      ⟨Bool.eq_false_iff.mpr hfree.1, Bool.eq_false_iff.mpr hdot⟩
                  split at h
                  · cases h
                  · next hshort =>
                      refine ⟨base, n, hallowed, hfollow, hnamed, hends,
                        Bool.eq_false_iff.mpr hshort, ⟨entries, hseen⟩, ?_, (Except.ok.inj h).symm⟩
                      intro inner hinner
                      rw [find?_of_seen? hseen] at hinner
                      exact hfree.2 (hinner ▸ rfl)
          · cases h
          · cases h

namespace Written

variable {base : List String} {n : String}

theorem opened (h : Written t l s base n t') : t.Open (base ++ [n]) := by
  obtain ⟨entries, hseen⟩ := h.isDirectory
  exact (open_follow (open_nil t) h.follow).concat (not_file_of_seen? hseen) n

/-- Only the file that is written changes. -/
theorem only (h : Written t l s base n t') (hn : n ≠ around ∧ n ≠ outermost) :
    ChangesOnly [base ++ [n]] t t' := by
  have hout : isOutward (base ++ [n]) = false := by
    rw [isOutward, List.all_append, Bool.or_eq_false_iff]
    refine ⟨by simp [hn.1], beq_eq_false_iff_ne.mpr fun heq => ?_⟩
    have hlast := congrArg List.getLast? heq
    rw [List.getLast?_concat] at hlast
    exact hn.2 (Option.some.inj hlast)
  rw [h.result]
  refine ChangesOnly.put h.opened h.free (fun _ => rfl) (fun _ _ => List.mem_singleton_self _) ?_
    (fun _ _ => List.mem_singleton_self _)
  intro heq
  rw [hout] at heq
  cases heq

/-- The location leads to the file that is written, and the file holds the text. -/
theorem leads (h : Written t l s base n t') (hn : n ≠ around ∧ n ≠ outermost) :
    t'.LeadsToFile l (base ++ [n]) (.text s) := by
  have hfound : t'.find? (base ++ [n]) = some (.file (.text s)) :=
    h.result ▸ find?_put_self _ h.opened
  refine ⟨h.allowed, ?_, h.endsInName, hfound⟩
  obtain ⟨entries, hseen⟩ := h.isDirectory
  obtain ⟨entries', hseen'⟩ := (h.only hn).directories hseen
  have hentry : (entries'.lookup n).isSome = true := by
    rw [← find?_of_seen? hseen', hfound]
    rfl
  have hstep : t'.step base (.name n) = .ok (base ++ [n]) :=
    step_eq_ok.mpr ⟨entries', hseen', .name h.short hentry⟩
  have hlast : l.components = l.components.dropLast ++ [.name n] :=
    (List.dropLast_append_getLast? _ h.named).symm
  rw [hlast, follow_append]
  exact bind_eq_ok.mpr
    ⟨base, (h.only hn).follow h.follow, bind_eq_ok.mpr ⟨_, hstep, rfl⟩⟩

end Written

/-! ## Storing a text -/

/-- When storing fails, no file has changed. -/
theorem only_store_fault {e : FileFault} (h : t.store l s = (some e, t')) : ChangesOnly [] t t' := by
  have hmade := only_makeDirectories t l.components.dropLast.reverse
  rw [store] at h
  split at h
  · next e' made heq =>
      rw [heq] at hmade
      cases h
      exact hmade
  · next made heq =>
      rw [heq] at hmade
      split at h
      · cases h
      · cases h
        exact hmade

/-- When it succeeds, only the file that the location leads to has changed, and it holds the text. -/
theorem only_store {n : String} (hn : n ≠ around ∧ n ≠ outermost)
    (hl : l.components.getLast? = some (.name n)) (h : t.store l s = (none, t')) :
    ∃ p, t'.LeadsToFile l p (.text s) ∧ ChangesOnly [p] t t' := by
  have hmade := only_makeDirectories t l.components.dropLast.reverse
  rw [store] at h
  split at h
  · cases h
  · next made heq =>
      rw [heq] at hmade
      split at h
      · next t'' hwritten =>
          cases h
          obtain ⟨base, m, hw⟩ := written_of_writeText hwritten
          obtain rfl : n = m := by
            have hm := hl.symm.trans hw.named
            exact Component.name.inj (Option.some.inj hm)
          exact ⟨base ++ [n], hw.leads hn, hmade.trans (hw.only hn)⟩
      · cases h

end ObservableStore.FileTree
