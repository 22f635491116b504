import Mathlib.Data.List.Basic

/-!
# `Proofs.Split` — lists split at one of their members

Run-level statements speak of the part of a history before something happened and the part after it.
These are the facts about such splits that the histories of flows and of stores use.
-/

namespace ObservableStore

variable {α : Type}

/-- A list that grew by one member and is split at some member is split at the new one, or was split
    there before. -/
theorem split_concat {l before after : List α} {x y : α} (h : l ++ [y] = before ++ x :: after) :
    (after = [] ∧ l = before ∧ y = x) ∨ ∃ mid, after = mid ++ [y] ∧ l = before ++ x :: mid := by
  rcases List.eq_nil_or_concat after with rfl | ⟨mid, z, rfl⟩
  · obtain ⟨hl, hy⟩ := List.append_inj' h rfl
    exact Or.inl ⟨rfl, hl, by simpa using hy⟩
  · rw [List.concat_eq_append, ← List.cons_append, ← List.append_assoc] at h
    obtain ⟨hl, hy⟩ := List.append_inj' h rfl
    have hyz : y = z := by simpa using hy
    exact Or.inr ⟨mid, by rw [List.concat_eq_append, hyz], hl⟩

/-- Two splits of one list, neither of which has the other's member behind its own, are the same. -/
theorem split_unique {before before' after after' : List α} {x x' : α}
    (h : before ++ x :: after = before' ++ x' :: after') (hx : x' ∉ after) (hx' : x ∉ after') :
    before = before' ∧ x = x' ∧ after = after' := by
  rcases List.append_eq_append_iff.mp h with ⟨mid, rfl, hmid⟩ | ⟨mid, rfl, hmid⟩
  · cases mid with
    | nil =>
        obtain ⟨rfl, rfl⟩ := List.cons.inj hmid
        exact ⟨by simp, rfl, rfl⟩
    | cons y mid =>
        obtain ⟨-, rfl⟩ := List.cons.inj hmid
        exact absurd (List.mem_append_right mid List.mem_cons_self) hx
  · cases mid with
    | nil =>
        obtain ⟨rfl, rfl⟩ := List.cons.inj hmid
        exact ⟨by simp, rfl, rfl⟩
    | cons y mid =>
        obtain ⟨-, rfl⟩ := List.cons.inj hmid
        exact absurd (List.mem_append_right mid List.mem_cons_self) hx'

/-- Of two different members of a list whose members are related in order, one comes first. -/
theorem related_of_mem {R : α → α → Prop} {l : List α} {x y : α} (h : l.Pairwise R) (hx : x ∈ l)
    (hy : y ∈ l) (hxy : x ≠ y) : R x y ∨ R y x := by
  obtain ⟨before, after, rfl⟩ := List.append_of_mem hx
  obtain ⟨-, hafter, hbefore⟩ := List.pairwise_append.mp h
  rcases List.mem_append.mp hy with hy | hy
  · exact Or.inr (hbefore y hy x List.mem_cons_self)
  · rcases List.mem_cons.mp hy with rfl | hy
    · exact absurd rfl hxy
    · exact Or.inl (List.rel_of_pairwise_cons hafter hy)

end ObservableStore
