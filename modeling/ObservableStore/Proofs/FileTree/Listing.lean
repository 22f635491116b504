import Mathlib.Data.List.Lex
import Mathlib.Data.String.Basic
import ObservableStore.FileTree.Walk
import ObservableStore.Proofs.FileTree.Grown

/-!
# `Proofs.FileTree.Listing` — what a walk finds

In a tree whose directories have one entry of each name (`WellFormed`) a walk finds every file below
a directory (`mem_files`) and comes to it in the order of the positions (`files_ordered`). A list
with an order is determined by its members, so what a walk finds is determined by what is seen below
the directory (`found_congr`), and adding entries keeps a tree in this form (`Grown.wellFormed`).
-/

namespace ObservableStore.FileTree

open Location (IsName)

variable {P : List String → FileTree → Prop} {t t' u new : FileTree} {p q base : List String}
variable {n : String} {names : List String} {entries : List (String × FileTree)}

/-! ## Trees with one entry of each name -/

/-- Directories have one entry of each name, and the names are those of files and directories or of
    what is around the tree. -/
inductive WellFormed : FileTree → Prop
  | file (c : Contents) : WellFormed (.file c)
  | directory {entries : List (String × FileTree)} (distinct : (entries.map Prod.fst).Nodup)
      (named : ∀ e ∈ entries, Inside e.1 → IsName e.1) (each : ∀ e ∈ entries, WellFormed e.2) :
      WellFormed (.directory entries)

theorem mem_of_lookup (h : entries.lookup n = some u) : (n, u) ∈ entries := by
  obtain ⟨before, after, rfl, -⟩ := List.lookup_eq_some_iff.mp h
  exact List.mem_append_right before List.mem_cons_self

/-- Under distinct names the entry with a name is the only one. -/
theorem lookup_of_mem (hdistinct : (entries.map Prod.fst).Nodup) (h : (n, u) ∈ entries) :
    entries.lookup n = some u := by
  obtain ⟨before, after, rfl⟩ := List.append_of_mem h
  refine List.lookup_eq_some_iff.mpr ⟨before, after, rfl, fun e he => ?_⟩
  rw [List.map_append, List.nodup_append] at hdistinct
  have hne := hdistinct.2.2 e.1 (List.mem_map_of_mem he) n (by simp)
  simpa using Ne.symm hne

theorem find?_cons (n : String) (rest : List String) :
    (directory entries).find? (n :: rest) = (entries.lookup n).bind fun child => child.find? rest :=
  rfl

namespace WellFormed

/-- What lies in such a tree is such a tree. -/
theorem find? (h : t.WellFormed) (hp : t.find? p = some u) : u.WellFormed := by
  induction p generalizing t with
  | nil => exact Option.some.inj hp ▸ h
  | cons n p ih =>
      cases h with
      | file c => cases hp
      | @directory entries distinct named each =>
          rw [find?_cons] at hp
          obtain ⟨child, hchild, hrest⟩ := Option.bind_eq_some_iff.mp hp
          exact ih (each _ (mem_of_lookup hchild)) hrest

theorem empty : FileTree.empty.WellFormed := by
  refine .directory List.nodup_nil ?_ ?_ <;> exact fun e he => absurd he List.not_mem_nil

/-- What is seen in such a tree is such a tree. -/
theorem seen? (h : t.WellFormed) (hp : t.seen? p = some u) : u.WellFormed := by
  rcases seen?_eq_some.mp hp with hfind | ⟨-, -, rfl⟩
  · exact h.find? hfind
  · exact empty

/-- The names on the way to what lies in a tree. -/
theorem isName (h : t.WellFormed) (hp : t.find? p = some u) (hn : n ∈ p) (hinside : Inside n) :
    IsName n := by
  induction p generalizing t with
  | nil => cases hn
  | cons m p ih =>
      cases h with
      | file c => cases hp
      | @directory entries distinct named each =>
          rw [find?_cons] at hp
          obtain ⟨child, hchild, hrest⟩ := Option.bind_eq_some_iff.mp hp
          have hmem := mem_of_lookup hchild
          rcases List.mem_cons.mp hn with rfl | hn
          · exact named _ hmem hinside
          · exact ih (each _ hmem) hrest hn

/-! ### Changed entries -/

theorem mem_setEntry {e : String × FileTree} (h : e ∈ setEntry n new entries) :
    e = (n, new) ∨ e ∈ entries := by
  induction entries with
  | nil => exact Or.inl (List.mem_singleton.mp h)
  | cons f rest ih =>
      rw [setEntry] at h
      split at h
      · next heq =>
          rcases List.mem_cons.mp h with rfl | h
          · exact Or.inl (by rw [heq])
          · exact Or.inr (List.mem_cons_of_mem f h)
      · rcases List.mem_cons.mp h with rfl | h
        · exact Or.inr List.mem_cons_self
        · exact (ih h).imp_right (List.mem_cons_of_mem f)

theorem distinct_setEntry (h : (entries.map Prod.fst).Nodup) :
    ((setEntry n new entries).map Prod.fst).Nodup := by
  induction entries with
  | nil => exact List.pairwise_singleton _ n
  | cons e rest ih =>
      rw [List.map_cons, List.nodup_cons] at h
      rw [setEntry]
      split
      · rw [List.map_cons]
        exact List.nodup_cons.mpr h
      · next hne =>
          rw [List.map_cons]
          refine List.nodup_cons.mpr ⟨fun hmem => ?_, ih h.2⟩
          obtain ⟨f, hf, heq⟩ := List.mem_map.mp hmem
          rcases mem_setEntry hf with rfl | hf
          · exact hne heq
          · exact h.1 (heq ▸ List.mem_map_of_mem hf)

theorem setEntry (h : (FileTree.directory entries).WellFormed) (hnew : new.WellFormed)
    (hn : Inside n → IsName n) : (FileTree.directory (setEntry n new entries)).WellFormed := by
  cases h with
  | directory distinct named each =>
      refine .directory (distinct_setEntry distinct) ?_ ?_
      · intro e he
        rcases mem_setEntry he with rfl | he
        · exact hn
        · exact named e he
      · intro e he
        rcases mem_setEntry he with rfl | he
        · exact hnew
        · exact each e he

theorem entry (h : (FileTree.directory entries).WellFormed) :
    ((entries.lookup n).getD FileTree.empty).WellFormed := by
  cases h with
  | directory distinct named each =>
      cases hentry : entries.lookup n with
      | none => exact empty
      | some child => exact each _ (mem_of_lookup hentry)

/-- Putting something into a tree keeps its form. -/
theorem put (h : t.WellFormed) (hnew : new.WellFormed) (hp : ∀ n ∈ p, Inside n → IsName n) :
    (t.put p new).WellFormed := by
  induction p generalizing t with
  | nil => exact hnew
  | cons n rest ih =>
      cases t with
      | file c => exact h
      | directory entries =>
          exact h.setEntry (ih h.entry fun m hm => hp m (List.mem_cons_of_mem n hm))
            (hp n List.mem_cons_self)

end WellFormed

/-- A tree keeps its form while entries with the names of files and directories are added. -/
theorem Grown.wellFormed (h : Grown P t t')
    (hP : ∀ p new, P p new → ∀ n, p.getLast? = some n → IsName n) (ht : t.WellFormed) :
    t'.WellFormed := by
  induction h with
  | refl => exact ht
  | tail _ hstep ih =>
      obtain ⟨base, n, new, hadds⟩ := hstep
      have hnew : new.WellFormed := by
        cases hadds.isNew with
        | directory _ => exact .empty
        | file _ => exact .file _
      refine hadds.result ▸ ih.put hnew fun m hm hinside => ?_
      rcases List.mem_append.mp hm with hm | hm
      · obtain ⟨entries, hseen⟩ := look_directory.mp hadds.atDirectory
        rcases seen?_eq_some.mp hseen with hfind | ⟨-, hout, -⟩
        · exact ih.isName hfind hm hinside
        · -- the names of directories on the way out lead to nothing inside
          rw [isOutward, Bool.or_eq_true, List.all_eq_true, beq_iff_eq] at hout
          rcases hout with hall | rfl
          · exact absurd (beq_iff_eq.mp (hall m hm)) hinside.1
          · exact absurd (List.mem_singleton.mp hm) hinside.2
      · exact List.mem_singleton.mp hm ▸ hP _ _ hadds.allowed n List.getLast?_concat

/-! ## The order of a walk -/

/-- The entries that a walk visits. -/
theorem filesOfEntries_eq (entries : List (String × FileTree)) :
    filesOfEntries entries =
      (entries.filter fun e => ¬ (e.1 = around ∨ e.1 = outermost)).map fun e => (e.1, files e.2) := by
  induction entries with
  | nil => rfl
  | cons e rest ih =>
      obtain ⟨n, u⟩ := e
      by_cases hn : n = around ∨ n = outermost
      · rw [filesOfEntries, if_pos hn, ih, List.filter_cons_of_neg (by simpa using hn.resolve_left)]
      · rw [filesOfEntries, if_neg hn, ih, List.filter_cons_of_pos (by simpa using hn)]
        rfl

theorem mem_filesOfEntries {e : String × List (List String × Contents)} :
    e ∈ filesOfEntries entries ↔ ∃ u, (e.1, u) ∈ entries ∧ Inside e.1 ∧ e.2 = files u := by
  rw [filesOfEntries_eq, List.mem_map]
  constructor
  · rintro ⟨⟨n, u⟩, hmem, rfl⟩
    obtain ⟨hmem, hn⟩ := List.mem_filter.mp hmem
    exact ⟨u, hmem, by simpa [Inside] using hn, rfl⟩
  · rintro ⟨u, hmem, hn, heq⟩
    exact ⟨(e.1, u), List.mem_filter.mpr ⟨hmem, by simpa [Inside] using hn⟩, by rw [← heq]⟩

/-- **A walk finds every file**, with its contents and nothing besides. -/
theorem mem_files (h : t.WellFormed) {c : Contents} :
    (p, c) ∈ files t ↔ t.find? p = some (.file c) ∧ ∀ n ∈ p, Inside n := by
  induction h generalizing p with
  | file c' =>
      cases p with
      | nil => simp [files, eq_comm]
      | cons n p => simp [files, FileTree.find?, entry?]
  | @directory entries distinct named each ih =>
      rw [files, List.mem_flatMap]
      constructor
      · rintro ⟨e, he, hmem⟩
        obtain ⟨u, hu, hn, heq⟩ := mem_filesOfEntries.mp (List.mem_mergeSort.mp he)
        rw [heq] at hmem
        obtain ⟨⟨q, c'⟩, hq, hunder⟩ := List.mem_map.mp hmem
        obtain ⟨rfl, rfl⟩ := Prod.mk.inj hunder
        obtain ⟨hfind, hinside⟩ := (ih _ hu).mp hq
        refine ⟨?_, List.forall_mem_cons.mpr ⟨hn, hinside⟩⟩
        rw [find?_cons, lookup_of_mem distinct hu]
        exact hfind
      · rintro ⟨hfind, hinside⟩
        cases p with
        | nil => cases hfind
        | cons n p =>
            rw [find?_cons] at hfind
            obtain ⟨u, hu, hrest⟩ := Option.bind_eq_some_iff.mp hfind
            obtain ⟨hn, hp⟩ := List.forall_mem_cons.mp hinside
            have hmem := mem_of_lookup hu
            refine ⟨(n, files u), List.mem_mergeSort.mpr ?_, ?_⟩
            · exact mem_filesOfEntries.mpr ⟨u, hmem, hn, rfl⟩
            · exact List.mem_map.mpr ⟨(p, c), (ih _ hmem).mpr ⟨hrest, hp⟩, rfl⟩

/-- The names of the entries that a walk visits are distinct. -/
theorem distinct_filesOfEntries (h : (entries.map Prod.fst).Nodup) :
    ((filesOfEntries entries).map Prod.fst).Nodup := by
  rw [filesOfEntries_eq, List.map_map]
  exact h.sublist (List.filter_sublist.map Prod.fst)

theorem nameLe_iff {α : Type} {a b : String × α} : nameLe a b = true ↔ a.1 ≤ b.1 :=
  Ordering.isLE_iff_ne_gt.trans compare_le_iff_le

/-- Entries with distinct names in the order of their names. -/
theorem ordered_names {α : Type} {l : List (String × α)} (h : (l.map Prod.fst).Nodup) :
    (l.mergeSort nameLe).Pairwise fun a b => a.1 < b.1 := by
  have hle : (l.mergeSort nameLe).Pairwise fun a b => nameLe a b = true := by
    refine List.pairwise_mergeSort (fun a b c => ?_) (fun a b => ?_) l
    · exact Std.TransCmp.isLE_trans
    · rw [Bool.or_eq_true, nameLe_iff, nameLe_iff]
      exact le_total a.1 b.1
  have hne : ((l.mergeSort nameLe).map Prod.fst).Nodup :=
    ((List.mergeSort_perm l nameLe).map Prod.fst).nodup_iff.mpr h
  refine (hle.and (List.pairwise_map.mp hne)).imp fun {a b} hab => ?_
  exact lt_of_le_of_ne (nameLe_iff.mp hab.1) hab.2

/-- **A walk comes to files in the order of their positions.** -/
theorem files_ordered (h : t.WellFormed) : (files t).Pairwise fun a b => a.1 < b.1 := by
  induction h with
  | file c => exact List.pairwise_singleton _ _
  | @directory entries distinct named each ih =>
      rw [files, List.pairwise_flatMap]
      constructor
      · intro e he
        obtain ⟨u, hu, -, heq⟩ := mem_filesOfEntries.mp (List.mem_mergeSort.mp he)
        rw [heq, List.pairwise_map]
        exact (ih _ hu).imp fun hlt => List.cons_lt_cons_self.mpr hlt
      · refine (ordered_names (distinct_filesOfEntries distinct)).imp fun hlt x hx y hy => ?_
        obtain ⟨x', -, rfl⟩ := List.mem_map.mp hx
        obtain ⟨y', -, rfl⟩ := List.mem_map.mp hy
        exact List.cons_lt_cons_iff.mpr (Or.inl hlt)

/-- A list in a strict order is determined by its members. -/
theorem eq_of_ordered {α : Type} [Preorder α] {l l' : List α} (h : l.Pairwise (· < ·))
    (h' : l'.Pairwise (· < ·)) (hmem : ∀ x, x ∈ l ↔ x ∈ l') : l = l' := by
  have hnodup : ∀ {k : List α}, k.Pairwise (· < ·) → k.Nodup := fun hk => hk.imp fun hlt => hlt.ne
  have hperm := (List.perm_ext_iff_of_nodup (hnodup h) (hnodup h')).mpr hmem
  exact hperm.eq_of_pairwise (fun a b _ _ hab hba => absurd hba hab.asymm) h h'

/-! ## Files with an extension -/

/-- The positions of the files with an extension below a position, in the order of a walk. -/
def found (t : FileTree) (p : List String) (extension : String) : List (List String) :=
  match t.seen? p with
  | some (.directory entries) =>
    ((files (.directory entries)).filter fun f =>
      (f.1.getLast?.bind Location.extensionOf) == some extension).map Prod.fst
  | _ => []

variable {extension : String}

theorem mem_found (h : t.WellFormed) {r : List String} : r ∈ t.found p extension ↔
    t.look p = .directory ∧ (∃ c, t.look (p ++ r) = .file c) ∧ (∀ n ∈ r, Inside n) ∧
      r.getLast?.bind Location.extensionOf = some extension := by
  rw [found]
  cases hlook : t.look p with
  | directory =>
      obtain ⟨entries, hseen⟩ := look_directory.mp hlook
      have hform := h.seen? hseen
      have hbelow : ∀ c, r ≠ [] →
          ((directory entries).find? r = some (.file c) ↔ t.look (p ++ r) = .file c) := by
        intro c hne
        obtain ⟨n, r, rfl⟩ := List.exists_cons_of_ne_nil hne
        rw [look_file, List.append_cons, find?_append, find?_of_seen? hseen, find?_cons]
      simp only [hseen, List.mem_map, List.mem_filter, beq_iff_eq, true_and]
      constructor
      · rintro ⟨⟨q, c⟩, ⟨hmem, hext⟩, rfl⟩
        obtain ⟨hfind, hinside⟩ := (mem_files hform).mp hmem
        refine ⟨⟨c, (hbelow c ?_).mp hfind⟩, hinside, hext⟩
        rintro rfl
        cases hext
      · rintro ⟨⟨c, hfile⟩, hinside, hext⟩
        have hne : r ≠ [] := by
          rintro rfl
          cases hext
        exact ⟨(r, c), ⟨(mem_files hform).mpr ⟨(hbelow c hne).mpr hfile, hinside⟩, hext⟩, rfl⟩
  | nothing => simp [look_nothing.mp hlook]
  | file c => simp [seen?_file.mpr (look_file.mp hlook)]

/-- The names that lead to what is found. -/
theorem isName_of_mem_found (h : t.WellFormed) {r : List String} (hr : r ∈ t.found p extension) :
    ∀ n ∈ r, IsName n := by
  obtain ⟨-, ⟨c, hc⟩, hinside, -⟩ := (mem_found h).mp hr
  exact fun n hn => h.isName (look_file.mp hc) (List.mem_append_right _ hn) (hinside n hn)

theorem found_ordered (h : t.WellFormed) : (t.found p extension).Pairwise (· < ·) := by
  rw [found]
  split
  · next entries hseen =>
      rw [List.pairwise_map]
      exact (files_ordered (h.seen? hseen)).sublist List.filter_sublist
  · exact List.Pairwise.nil

/-- **What is found is determined by what is seen.** Where a tree differs from another one only by
    files that are missing, a walk finds what it finds in the other one but for these. -/
theorem found_without (h : t.WellFormed) (h' : t'.WellFormed) {gone : List (List String)}
    (hp : t'.look p = t.look p)
    (hbelow : ∀ q, Below p q → t'.look q = if q ∈ gone then .nothing else t.look q) :
    t'.found p extension = (t.found p extension).filter fun r => p ++ r ∉ gone := by
  refine eq_of_ordered (found_ordered h') ((found_ordered h).sublist List.filter_sublist) fun r => ?_
  rw [List.mem_filter, mem_found h, mem_found h', hp, decide_eq_true_eq]
  constructor
  · rintro ⟨hdirectory, ⟨c, hfile⟩, hinside, hext⟩
    rw [hbelow _ ⟨r, hinside, rfl⟩] at hfile
    split at hfile
    · cases hfile
    · next hthere => exact ⟨⟨hdirectory, ⟨c, hfile⟩, hinside, hext⟩, hthere⟩
  · rintro ⟨⟨hdirectory, ⟨c, hfile⟩, hinside, hext⟩, hthere⟩
    refine ⟨hdirectory, ⟨c, ?_⟩, hinside, hext⟩
    rw [hbelow _ ⟨r, hinside, rfl⟩, if_neg hthere, hfile]

theorem found_congr (h : t.WellFormed) (h' : t'.WellFormed)
    (hbelow : ∀ q, Below p q → t'.look q = t.look q) :
    t'.found p extension = t.found p extension := by
  have hnone : ∀ q, Below p q → t'.look q = if q ∈ [] then .nothing else t.look q := fun q hq => by
    rw [hbelow q hq, if_neg List.not_mem_nil]
  have hsame : t'.found p extension = _ := found_without h h' (hbelow p (.refl p)) hnone
  rw [hsame]
  simp

end ObservableStore.FileTree
