import Mathlib.Data.List.Basic
import ObservableStore.FileTree.Access

/-!
# `Proofs.FileTree.Put` — what a tree holds after something was put into it

Something is put at a position where no directory lies: a new directory where nothing was, or a file
where nothing or a file was. At the position there is then what was put (`find?_put_self`), unless a
file is on the way there, and then nothing changes. What lies elsewhere stays: a file is the same
file and a directory is still a directory (`find?_put_other`). Where nothing was, there is no file
(`find?_put_nothing`).
-/

namespace ObservableStore.FileTree

variable {t u : FileTree} {p q : List String}

/-! ## Ways without files -/

/-- No file is in front of a position on the way to it. -/
def Open (t : FileTree) (p : List String) : Prop :=
  ∀ q, q <+: p → q ≠ p → ∀ c, t.find? q ≠ some (.file c)

theorem open_nil (t : FileTree) : t.Open [] := fun _ hq hne => absurd (List.prefix_nil.mp hq) hne

/-- The way to what lies in a directory is open if the way to the directory is. -/
theorem Open.concat (h : t.Open p) (hp : ∀ c, t.find? p ≠ some (.file c)) (name : String) :
    t.Open (p ++ [name]) := by
  intro q hq hne c
  rcases List.prefix_concat_iff.mp hq with rfl | hq
  · exact absurd rfl hne
  · by_cases hqp : q = p
    · exact hqp ▸ hp c
    · exact h q hq hqp c

theorem Open.dropLast (h : t.Open p) : t.Open p.dropLast := by
  intro q hq hne
  refine h q (hq.trans p.dropLast_prefix) ?_
  rintro rfl
  exact hne (hq.eq_of_length_le (List.length_dropLast ▸ Nat.sub_le _ _))

/-- A directory has open ways to its entries, and so has the one that is made where it has none. -/
theorem Open.entry {entries : List (String × FileTree)} {name : String} {rest : List String}
    (h : (directory entries).Open (name :: rest)) :
    ((entries.lookup name).getD empty).Open rest := by
  intro q hq hne c
  cases hentry : entries.lookup name with
  | none =>
      cases q with
      | nil => exact fun heq => by cases heq
      | cons n q => exact fun heq => by cases heq
  | some child =>
      have hfind : (directory entries).find? (name :: q) = child.find? q := by
        rw [find?, entry?, hentry, Option.bind_some]
      have hprefix : name :: q <+: name :: rest := (List.prefix_cons_inj name).mpr hq
      have hdiffers : name :: q ≠ name :: rest := fun heq => hne (List.cons.inj heq).2
      exact hfind ▸ h (name :: q) hprefix hdiffers c

/-! ## Looking at a tree after a change -/

/-- What stays of a thing beside a change: a file is the same, a directory may have other entries. -/
def Stays (u u' : FileTree) : Prop :=
  u' = u ∨ u.isDirectory = true ∧ u'.isDirectory = true

theorem Stays.file {c : Contents} (h : (file c).Stays u) : u = file c := by
  rcases h with rfl | ⟨h, -⟩
  · rfl
  · cases h

/-- Only a file stays as a file. -/
theorem Stays.of_file {c : Contents} (h : u.Stays (.file c)) : u = .file c := by
  rcases h with h | ⟨-, h⟩
  · exact h.symm
  · cases h

theorem Stays.directory {entries : List (String × FileTree)} (h : (directory entries).Stays u) :
    ∃ entries', u = directory entries' := by
  rcases h with rfl | ⟨-, h⟩
  · exact ⟨entries, rfl⟩
  · cases u with
    | file c => cases h
    | directory entries' => exact ⟨entries', rfl⟩

section Entries

variable {entries : List (String × FileTree)} {name other : String} {rest : List String}
variable (new : FileTree)

theorem find?_put_same_entry :
    ((directory entries).put (name :: rest) new).find? (name :: q)
      = (((entries.lookup name).getD empty).put rest new).find? q := by
  rw [put, find?, entry?, lookup_setEntry_self, Option.bind_some]

theorem find?_put_other_entry (h : other ≠ name) :
    ((directory entries).put (name :: rest) new).find? (other :: q)
      = (directory entries).find? (other :: q) := by
  rw [put, find?, entry?, lookup_setEntry_other _ _ h]
  rfl

end Entries

theorem find?_put_self (new : FileTree) (h : t.Open p) : (t.put p new).find? p = some new := by
  induction p generalizing t with
  | nil => rfl
  | cons name rest ih =>
      cases t with
      | file c => exact absurd rfl (h [] List.nil_prefix (List.cons_ne_nil name rest).symm c)
      | directory entries => rw [find?_put_same_entry, ih h.entry]

theorem find?_put_other (new : FileTree) (hp : ∀ entries, t.find? p ≠ some (directory entries))
    (hne : q ≠ p) (hq : t.find? q = some u) : ∃ u', (t.put p new).find? q = some u' ∧ u.Stays u' := by
  induction p generalizing t q with
  | nil =>
      -- the whole tree is a file, so nothing lies anywhere else
      obtain ⟨name, q, rfl⟩ := List.exists_cons_of_ne_nil hne
      cases t with
      | file c => cases hq
      | directory entries => exact absurd rfl (hp entries)
  | cons name rest ih =>
      cases t with
      | file c => exact ⟨u, hq, Or.inl rfl⟩
      | directory entries =>
          cases q with
          | nil =>
              cases hq
              exact ⟨_, rfl, Or.inr ⟨rfl, rfl⟩⟩
          | cons other q =>
              by_cases hother : other = name
              · subst hother
                cases hentry : entries.lookup other with
                | none => simp [find?, entry?, hentry] at hq
                | some child =>
                    have hchild : ∀ r, (directory entries).find? (other :: r) = child.find? r := by
                      intro r
                      rw [find?, entry?, hentry, Option.bind_some]
                    rw [find?_put_same_entry, hentry, Option.getD_some]
                    exact ih (fun es => hchild rest ▸ hp es) (fun heq => hne (heq ▸ rfl))
                      (hchild q ▸ hq)
              · exact ⟨u, by rw [find?_put_other_entry new hother, hq], Or.inl rfl⟩

/-- A new entry brings no file beside itself. -/
theorem find?_put_nothing {new : FileTree} (hnew : ∀ name, new.entry? name = none) (hne : q ≠ p)
    (hq : t.find? q = none) (c : Contents) : (t.put p new).find? q ≠ some (file c) := by
  induction p generalizing t q with
  | nil =>
      obtain ⟨name, q, rfl⟩ := List.exists_cons_of_ne_nil hne
      rw [put, find?, hnew name]
      exact fun heq => by cases heq
  | cons name rest ih =>
      cases t with
      | file c => exact fun heq => by rw [put, hq] at heq; cases heq
      | directory entries =>
          cases q with
          | nil => cases hq
          | cons other q =>
              by_cases hother : other = name
              · subst hother
                rw [find?_put_same_entry]
                have hne' : q ≠ rest := fun heq => hne (heq ▸ rfl)
                cases hentry : entries.lookup other with
                | none =>
                    cases q with
                    | cons n q => exact ih hne' rfl
                    | nil =>
                        -- a directory is made here, on the way to the new entry
                        obtain ⟨n, rest, rfl⟩ := List.exists_cons_of_ne_nil hne'.symm
                        exact fun heq => by cases heq
                | some child =>
                    have hchild : child.find? q = none := by
                      rw [← hq, find?, entry?, hentry, Option.bind_some]
                    exact ih hne' hchild
              · exact fun heq => by rw [find?_put_other_entry new hother, hq] at heq; cases heq

end ObservableStore.FileTree
