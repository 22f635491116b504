import ObservableStore.Proofs.Location

/-!
# `Proofs.Text.SnakeCase` — names in snake case as names of files

A name in snake case holds lower-case forms of letters and numbers and underscores, so no slash
(`slash_not_mem_snakeCase`). With an extension behind it, it can be the name of a file
(`isName_wrapperFileName`).
-/

namespace ObservableStore

namespace Text

variable {c : Char} {w cs : List Char}

/-- The words of a name hold letters and numbers. -/
theorem isAlphanumeric_of_mem_words (hw : w ∈ words cs) (hc : c ∈ w) : isAlphanumeric c = true := by
  have hflat : c ∈ (words cs).flatten := List.mem_flatten.mpr ⟨w, hw, hc⟩
  rw [words_flatten] at hflat
  exact (List.mem_filter.mp hflat).2

-- the table of the characters is one long text, which is taken apart here
set_option maxRecDepth 100000 in
theorem lowerForms_targets : lowerForms.all (fun r => 48 ≤ r.target) = true := by
  refine (congrArg (fun cs =>
    ((entriesOf [] cs).map CodeRange.ofEntry).all fun r => 48 ≤ r.target)
      String.toList_ofList).trans ?_
  decide +kernel

theorem slash_ne_ofNat {n : Nat} (h : 48 ≤ n) : '/' ≠ Char.ofNat n := by
  intro heq
  have hnat : 47 = (Char.ofNat n).toNat := congrArg Char.toNat heq
  by_cases hvalid : n.isValidChar
  · have hsame : (Char.ofNat n).toNat = n := by
      rw [Char.ofNat, dif_pos hvalid]
      rfl
    omega
  · rw [Char.ofNat, dif_neg hvalid] at hnat
    cases hnat

/-- The small letters and digits of the first 128 characters. -/
theorem slash_ne_toLower (hascii : c.toNat < 128) (hc : c.isAlphanum = true) : '/' ≠ c.toLower := by
  have htable : (List.range 128).all
      (fun n => !(Char.ofNat n).isAlphanum || (Char.ofNat n).toLower != '/') = true := by decide
  have hentry := List.all_eq_true.mp htable c.toNat (List.mem_range.mpr hascii)
  rw [Char.ofNat_toNat, hc, Bool.not_true, Bool.false_or, bne_iff_ne] at hentry
  exact Ne.symm hentry

/-- The lower-case form of a letter or a number has no slash. -/
theorem slash_not_mem_lowerForm (hc : isAlphanumeric c = true) : '/' ∉ lowerForm c := by
  rw [isAlphanumeric] at hc
  rw [lowerForm]
  by_cases hascii : c.toNat < 128
  · rw [if_pos hascii] at hc ⊢
    exact fun hmem => slash_ne_toLower hascii hc (List.mem_singleton.mp hmem)
  · rw [if_neg hascii]
    split
    · decide
    · split
      · next n hn =>
          obtain ⟨r, hr, rfl⟩ := Option.map_eq_some_iff.mp hn
          have htarget := List.all_eq_true.mp lowerForms_targets r (List.mem_of_find?_eq_some hr)
          have hle : 48 ≤ r.target := of_decide_eq_true htarget
          refine fun hmem => slash_ne_ofNat ?_ (List.mem_singleton.mp hmem)
          rw [CodeRange.image]
          omega
      · intro hmem
        rw [← List.mem_singleton.mp hmem] at hascii
        exact hascii (by decide)

theorem slash_not_mem_lowerWord (h : ∀ c ∈ w, isAlphanumeric c = true) : '/' ∉ lowerWord w := by
  fun_induction lowerWord w with
  | case1 => exact List.not_mem_nil
  | case2 c hsigma => decide
  | case3 c hother => exact slash_not_mem_lowerForm (h c List.mem_cons_self)
  | case4 c rest hne ih =>
      rw [List.mem_append, not_or]
      exact ⟨slash_not_mem_lowerForm (h c List.mem_cons_self),
        ih fun d hd => h d (List.mem_cons_of_mem c hd)⟩

/-- **A name in snake case has no slash.** -/
theorem slash_not_mem_snakeCase (s : String) : '/' ∉ (snakeCase s).toList := by
  have hjoin : ∀ ps : List (List Char), (∀ p ∈ ps, '/' ∉ p) → '/' ∉ join ['_'] ps := by
    intro ps hps
    fun_induction join ['_'] ps with
    | case1 => exact List.not_mem_nil
    | case2 p => exact hps p List.mem_cons_self
    | case3 p q ps ih =>
        rw [List.mem_append, List.mem_append, not_or, not_or]
        exact ⟨⟨hps p List.mem_cons_self, by decide⟩,
          ih fun r hr => hps r (List.mem_cons_of_mem p hr)⟩
  rw [snakeCase, toList_intercalate]
  refine hjoin _ fun p hp => ?_
  rw [List.map_map] at hp
  obtain ⟨w, hw, rfl⟩ := List.mem_map.mp hp
  rw [Function.comp_apply, String.toList_ofList]
  exact slash_not_mem_lowerWord fun c hc => isAlphanumeric_of_mem_words hw hc

end Text

theorem isName_wrapperFileName (wrapper : String) : Location.IsName (wrapperFileName wrapper) := by
  have hchars : (wrapperFileName wrapper).toList =
      (Text.snakeCase wrapper).toList ++ ['.', 'r', 's'] := by
    rw [wrapperFileName, String.toList_append]
    rfl
  have hne : ∀ s : String, s.toList.length < 3 → wrapperFileName wrapper ≠ s := by
    rintro s hs rfl
    rw [hchars, List.length_append] at hs
    exact absurd hs (Nat.not_lt.mpr (Nat.le_add_left 3 _))
  refine ⟨hne "" (by decide), ?_, hne "." (by decide), hne ".." (by decide)⟩
  rw [hchars, List.mem_append, not_or]
  exact ⟨Text.slash_not_mem_snakeCase wrapper, by decide⟩

end ObservableStore
