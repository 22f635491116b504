import Mathlib.Data.List.Basic
import Mathlib.Data.List.TakeWhile
import ObservableStore.Text.Blank
import ObservableStore.Text.Split

/-!
# `Proofs.Text.Split` — pieces of texts

Cutting undoes joining as long as no piece holds the separator (`splitAtPair_join`), joining always
undoes cutting (`join_splitAtPair`), and a text that is cut at a character can be cut in two parts at
one of them (`splitAtChar_append_sep`). A text is what `trim` leaves of it with blanks around
(`exists_around_trim`).
-/

namespace ObservableStore.Text

theorem join_eq_intercalate (sep : List Char) (ps : List (List Char)) :
    join sep ps = sep.intercalate ps := by
  induction ps with
  | nil => rfl
  | cons p rest ih =>
      cases rest with
      | nil => simp [join]
      | cons q rest => rw [join, ih, List.intercalate_cons_cons, List.append_assoc]

/-- The characters of joined texts. -/
theorem toList_intercalate (sep : String) (names : List String) :
    (sep.intercalate names).toList = join sep.toList (names.map String.toList) := by
  rw [String.toList_intercalate, join_eq_intercalate]

/-! ## Cutting at a character -/

theorem splitAtChar_append_sep (sep : Char) (xs ys : List Char) :
    splitAtChar sep (xs ++ sep :: ys) = splitAtChar sep xs ++ splitAtChar sep ys := by
  induction xs with
  | nil => simp [splitAtChar]
  | cons x xs ih =>
      by_cases hx : x = sep
      · simp [splitAtChar, hx, ih]
      · obtain ⟨p, ps, hp⟩ := List.exists_cons_of_ne_nil (splitAtChar_ne_nil sep xs)
        simp [splitAtChar, hx, ih, hp, consFirst]

/-- No piece holds the separator. -/
theorem not_mem_of_mem_splitAtChar {sep : Char} {p cs : List Char} (h : p ∈ splitAtChar sep cs) :
    sep ∉ p := by
  induction cs generalizing p with
  | nil => exact List.mem_singleton.mp h ▸ List.not_mem_nil
  | cons c rest ih =>
      rw [splitAtChar] at h
      split at h
      · rcases List.mem_cons.mp h with rfl | h
        · exact List.not_mem_nil
        · exact ih h
      · next hc =>
          obtain ⟨first, pieces, hsplit⟩ := List.exists_cons_of_ne_nil (splitAtChar_ne_nil sep rest)
          rw [hsplit, consFirst] at h
          rcases List.mem_cons.mp h with rfl | h
          · refine List.not_mem_cons_of_ne_of_not_mem (Ne.symm hc) (ih ?_)
            rw [hsplit]
            exact List.mem_cons_self
          · exact ih (by rw [hsplit]; exact List.mem_cons_of_mem first h)

/-! ## Cutting at a pair -/

variable {sep : Char} {p : List Char}

theorem splitAtPair_of_not_mem (h : sep ∉ p) : splitAtPair sep p = [p] := by
  fun_induction splitAtPair sep p with
  | case1 => rfl
  | case2 c => rfl
  | case3 c d rest hpair _ => exact absurd (hpair.1 ▸ List.mem_cons_self) h
  | case4 c d rest _ ih => rw [ih (List.not_mem_of_not_mem_cons h), consFirst]

theorem splitAtPair_ne_nil (sep : Char) (cs : List Char) : splitAtPair sep cs ≠ [] := by
  fun_induction splitAtPair sep cs with
  | case1 => exact List.cons_ne_nil _ _
  | case2 c => exact List.cons_ne_nil _ _
  | case3 c d rest _ _ => exact List.cons_ne_nil _ _
  | case4 c d rest _ _ => cases splitAtPair sep (d :: rest) <;> exact List.cons_ne_nil _ _

/-- A character that is not the separator belongs to the first piece. -/
theorem splitAtPair_cons_of_ne {c : Char} (hc : c ≠ sep) (cs : List Char) :
    splitAtPair sep (c :: cs) = consFirst c (splitAtPair sep cs) := by
  cases cs with
  | nil => rfl
  | cons d rest => rw [splitAtPair, if_neg fun hpair => hc hpair.1]

theorem splitAtPair_append (h : sep ∉ p) (rest : List Char) :
    splitAtPair sep (p ++ sep :: sep :: rest) = p :: splitAtPair sep rest := by
  induction p with
  | nil => simp [splitAtPair]
  | cons c p ih =>
      have hc : c ≠ sep := fun heq => h (heq ▸ List.mem_cons_self)
      rw [List.cons_append, splitAtPair_cons_of_ne hc, ih (List.not_mem_of_not_mem_cons h), consFirst]

/-- Cutting at a pair undoes joining with it. -/
theorem splitAtPair_join {ps : List (List Char)} (hne : ps ≠ []) (h : ∀ p ∈ ps, sep ∉ p) :
    splitAtPair sep (join [sep, sep] ps) = ps := by
  induction ps with
  | nil => exact absurd rfl hne
  | cons p ps ih =>
      have hp : sep ∉ p := h p List.mem_cons_self
      cases ps with
      | nil => exact splitAtPair_of_not_mem hp
      | cons q ps =>
          have hrest := ih (List.cons_ne_nil q ps) fun r hr => h r (List.mem_cons_of_mem p hr)
          rw [join, List.append_assoc]
          exact (splitAtPair_append hp _).trans (congrArg (p :: ·) hrest)

theorem join_cons {q : List Char} {ps : List (List Char)} (hne : ps ≠ []) :
    join [sep, sep] (q :: ps) = q ++ sep :: sep :: join [sep, sep] ps := by
  obtain ⟨p, rest, rfl⟩ := List.exists_cons_of_ne_nil hne
  rw [join, List.append_assoc]
  rfl

theorem join_consFirst {c : Char} {ps : List (List Char)} (hne : ps ≠ []) :
    join [sep, sep] (consFirst c ps) = c :: join [sep, sep] ps := by
  obtain ⟨p, rest, rfl⟩ := List.exists_cons_of_ne_nil hne
  cases rest <;> rfl

/-- Joining undoes cutting at a pair. -/
theorem join_splitAtPair (sep : Char) (cs : List Char) :
    join [sep, sep] (splitAtPair sep cs) = cs := by
  fun_induction splitAtPair sep cs with
  | case1 => rfl
  | case2 c => rfl
  | case3 c d rest hpair ih =>
      rw [join_cons (splitAtPair_ne_nil sep rest), ih, hpair.1, hpair.2, List.nil_append]
  | case4 c d rest _ ih => rw [join_consFirst (splitAtPair_ne_nil sep _), ih]

/-! ## Blanks at the ends -/

theorem trim_cons_blank {c : Char} (hc : isBlank c = true) (cs : List Char) :
    trim (c :: cs) = trim cs := by
  rw [trim, List.dropWhile_cons_of_pos hc, trim]

theorem trim_append_blanks {w : List Char} (hw : ∀ c ∈ w, isBlank c = true) (cs : List Char) :
    trim (cs ++ w) = trim cs := by
  have hreverse : w.reverse.dropWhile isBlank = [] :=
    List.dropWhile_eq_nil_iff.mpr fun c hc => hw c (List.mem_reverse.mp hc)
  rw [trim, trim, List.dropWhile_append]
  split
  · next hempty => rw [List.isEmpty_iff.mp hempty, List.dropWhile_eq_nil_iff.mpr hw]
  · rw [List.reverse_append, List.dropWhile_append, hreverse, List.isEmpty_nil, if_pos rfl]

/-- A text is what `trim` leaves of it with blanks around. -/
theorem exists_around_trim (cs : List Char) : ∃ before after,
    (∀ c ∈ before, isBlank c = true) ∧ (∀ c ∈ after, isBlank c = true) ∧
      cs = before ++ trim cs ++ after := by
  have hback : cs.dropWhile isBlank =
      trim cs ++ ((cs.dropWhile isBlank).reverse.takeWhile isBlank).reverse := by
    rw [trim, ← List.reverse_append, List.takeWhile_append_dropWhile, List.reverse_reverse]
  refine ⟨cs.takeWhile isBlank, ((cs.dropWhile isBlank).reverse.takeWhile isBlank).reverse,
    fun c hc => List.mem_takeWhile_imp hc,
    fun c hc => List.mem_takeWhile_imp (List.mem_reverse.mp hc), ?_⟩
  rw [List.append_assoc, ← hback, List.takeWhile_append_dropWhile]

end ObservableStore.Text
