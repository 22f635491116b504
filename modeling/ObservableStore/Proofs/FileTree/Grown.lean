import Mathlib.Logic.Relation
import ObservableStore.Proofs.FileTree.Look

/-!
# `Proofs.FileTree.Grown` — trees to which entries were added

What a batch does to a tree is to add entries, one after another: an empty directory where nothing
was, or a file where no directory was (`Adds`). A tree has `Grown` when any number of entries were
added of which each is of an allowed kind. What is seen at a position changes only by an allowed
entry there; a directory stays one, a file stays a file, and no name that is too long appears. So a
location that goes on with names from a directory (`Anchored`) does so in every tree that grows from
this one.
-/

namespace ObservableStore.FileTree

variable {P Q : List String → FileTree → Prop} {t t' t'' new : FileTree}
variable {p base : List String} {n : String} {names : List String}

/-! ## One entry -/

/-- What can be added at a position. -/
inductive IsNew (t : FileTree) (p : List String) : FileTree → Prop
  | directory (h : t.look p = .nothing) : IsNew t p empty
  | file {s : String} (h : t.look p ≠ .directory) : IsNew t p (.file (.text s))

/-- An entry of an allowed kind is added to a directory. -/
structure Adds (P : List String → FileTree → Prop) (t : FileTree) (base : List String) (n : String)
    (new t' : FileTree) : Prop where
  opened : t.Open base
  atDirectory : t.look base = .directory
  inside : Inside n
  short : isLongName n = false
  isNew : IsNew t (base ++ [n]) new
  allowed : P (base ++ [n]) new
  result : t' = t.put (base ++ [n]) new

theorem IsNew.entry? (h : IsNew t p new) (name : String) : new.entry? name = none := by
  cases h <;> rfl

theorem IsNew.free (h : IsNew t p new) : t.look p ≠ .directory := by
  cases h with
  | directory h => exact ne_directory_of_nothing h
  | file h => exact h

/-- An added entry is seen at its position and nowhere else. -/
theorem Adds.look (h : Adds P t base n new t') (q : List String) :
    t'.look q = if q = base ++ [n] then sight (some new) else t.look q := by
  rw [h.result]
  exact look_put h.opened h.atDirectory h.isNew.free h.isNew.entry? q

/-! ## Any number of entries -/

/-- A tree to which allowed entries were added. -/
abbrev Grown (P : List String → FileTree → Prop) : FileTree → FileTree → Prop :=
  Relation.ReflTransGen fun t t' => ∃ base n new, Adds P t base n new t'

theorem Adds.grown (h : Adds P t base n new t') : Grown P t t' :=
  Relation.ReflTransGen.single ⟨base, n, new, h⟩

namespace Grown

theorem mono (hPQ : ∀ p new, P p new → Q p new) (h : Grown P t t') : Grown Q t t' := by
  refine Relation.ReflTransGen.mono ?_ _ _ h
  rintro t t' ⟨base, n, new, hadds⟩
  exact ⟨base, n, new, { hadds with allowed := hPQ _ _ hadds.allowed }⟩

/-- What is seen where nothing may be added stays. -/
theorem same (h : Grown P t t') (hp : ∀ new, ¬ P p new) : t'.look p = t.look p := by
  induction h with
  | refl => rfl
  | tail _ hstep ih =>
      obtain ⟨base, n, new, hadds⟩ := hstep
      rw [hadds.look, if_neg, ih]
      rintro rfl
      exact hp new hadds.allowed

theorem directory (h : Grown P t t') (hp : t.look p = .directory) : t'.look p = .directory := by
  induction h with
  | refl => exact hp
  | tail _ hstep ih =>
      obtain ⟨base, n, new, hadds⟩ := hstep
      rw [hadds.look, if_neg, ih]
      rintro rfl
      exact hadds.isNew.free ih

theorem file {c : Contents} (h : Grown P t t') (hp : t.look p = .file c) :
    ∃ c', t'.look p = .file c' := by
  induction h with
  | refl => exact ⟨c, hp⟩
  | tail _ hstep ih =>
      obtain ⟨base, n, new, hadds⟩ := hstep
      obtain ⟨c', hc'⟩ := ih
      rw [hadds.look]
      split
      · next heq =>
          subst heq
          cases hadds.isNew with
          | directory hnothing =>
              rw [hnothing] at hc'
              cases hc'
          | @file s _ => exact ⟨.text s, rfl⟩
      · exact ⟨c', hc'⟩

/-- A directory was there or may be added. -/
theorem directory_cases (h : Grown P t t') (hp : t'.look p = .directory) :
    t.look p = .directory ∨ P p empty := by
  induction h with
  | refl => exact Or.inl hp
  | tail _ hstep ih =>
      obtain ⟨base, n, new, hadds⟩ := hstep
      rw [hadds.look] at hp
      split at hp
      · next heq =>
          subst heq
          cases hadds.isNew with
          | directory _ => exact Or.inr hadds.allowed
          | file _ => cases hp
      · exact ih hp

/-- A name that is too long is not added. -/
theorem nothing_long (h : Grown P t t') (hlong : isLongName n = true)
    (hp : t.look (p ++ [n]) = .nothing) : t'.look (p ++ [n]) = .nothing := by
  induction h with
  | refl => exact hp
  | tail _ hstep ih =>
      obtain ⟨base, m, new, hadds⟩ := hstep
      rw [hadds.look, if_neg, ih]
      intro heq
      obtain ⟨-, hlast⟩ := List.append_inj' heq rfl
      obtain rfl := (List.cons.inj hlast).1
      rw [hadds.short] at hlong
      cases hlong

/-- The way to a directory stays open. -/
theorem opened (h : Grown P t t') (hbase : t.look base = .directory) (hopen : t.Open base) :
    t'.Open base := by
  rw [open_iff] at hopen ⊢
  intro q hq hne c
  have hdirectory : t.look q = .directory := by
    cases hlook : t.look q with
    | nothing => exact absurd hlook (seen_above hbase hq)
    | file c => exact absurd hlook (hopen q hq hne c)
    | directory => rfl
  rw [h.directory hdirectory]
  intro heq
  cases heq

end Grown

/-! ## Locations that go on with names -/

/-- What leads to a directory still does so when no directory is lost. -/
theorem follow_of_directories {cs : List Component}
    (hcs : ∀ n, .name n ∈ cs → Location.IsName n)
    (hkeeps : ∀ p, t.look p = .directory → t'.look p = .directory)
    (hfollow : t.follow base cs = .ok p) (hp : t.look p = .directory) :
    t'.follow base cs = .ok p := by
  induction cs generalizing base with
  | nil => exact hfollow
  | cons c rest ih =>
      rw [follow] at hfollow ⊢
      obtain ⟨next, hstep, hrest⟩ := bind_eq_ok.mp hfollow
      refine bind_eq_ok.mpr ⟨next, ?_, ih (fun n hn => hcs n (List.mem_cons_of_mem c hn)) hrest⟩
      -- the next position is a directory too, as steps are taken from it or it is the last one
      have hnext : t.look next = .directory := by
        cases rest with
        | nil =>
            obtain rfl := Except.ok.inj hrest
            exact hp
        | cons d rest =>
            obtain ⟨_, hstep', -⟩ := bind_eq_ok.mp hrest
            obtain ⟨entries, hseen, -⟩ := step_eq_ok.mp hstep'
            exact look_directory.mpr ⟨entries, hseen⟩
      obtain ⟨entries, hseen, hleads⟩ := step_eq_ok.mp hstep
      have hbase' := hkeeps _ (look_directory.mpr ⟨entries, hseen⟩)
      obtain ⟨entries', hseen'⟩ := look_directory.mp hbase'
      cases hleads with
      | root => exact step_eq_ok.mpr ⟨entries', hseen', .root⟩
      | here => exact step_eq_ok.mpr ⟨entries', hseen', .here⟩
      | up => exact step_eq_ok.mpr ⟨entries', hseen', .up⟩
      | @name n hlong _ =>
          rw [step_name hbase' (inside_of_isName (hcs n List.mem_cons_self)),
            if_neg (Bool.eq_false_iff.mp hlong), hkeeps _ hnext]
          rfl

/-- Components lead to a directory that is there and go on with names. -/
structure Anchored (t : FileTree) (cs : List Component) (base names : List String) : Prop where
  follow : ∃ above, cs = above ++ names.map .name ∧ t.follow [] above = .ok base
  atDirectory : t.look base = .directory
  names : ∀ n, .name n ∈ cs → Location.IsName n

namespace Anchored

variable {cs : List Component}

theorem isName (h : Anchored t cs base names) : ∀ n ∈ names, Location.IsName n := by
  obtain ⟨above, rfl, -⟩ := h.follow
  exact fun n hn => h.names n (List.mem_append_right above (List.mem_map_of_mem hn))

theorem inside (h : Anchored t cs base names) : ∀ n ∈ names, Inside n :=
  fun n hn => inside_of_isName (h.isName n hn)

theorem opened (h : Anchored t cs base names) : t.Open base := by
  obtain ⟨above, -, hfollow⟩ := h.follow
  exact open_follow (open_nil t) hfollow

/-- The components lead where the names lead from the directory. -/
theorem follow_eq (h : Anchored t cs base names) :
    t.follow [] cs = t.follow base (names.map .name) := by
  obtain ⟨above, rfl, hfollow⟩ := h.follow
  rw [follow_append, hfollow]
  rfl

theorem of_directories (h : Anchored t cs base names)
    (hkeeps : ∀ p, t.look p = .directory → t'.look p = .directory) :
    Anchored t' cs base names := by
  obtain ⟨above, rfl, hfollow⟩ := h.follow
  refine ⟨⟨above, rfl, ?_⟩, hkeeps _ h.atDirectory, h.names⟩
  exact follow_of_directories (fun n hn => h.names n (List.mem_append_left _ hn)) hkeeps hfollow
    h.atDirectory

theorem grown (h : Anchored t cs base names) (hg : Grown P t t') : Anchored t' cs base names :=
  h.of_directories fun _ hp => hg.directory hp

/-- More names may follow. -/
theorem append (h : Anchored t cs base names) {more : List String}
    (hmore : ∀ n ∈ more, Location.IsName n) :
    Anchored t (cs ++ more.map .name) base (names ++ more) := by
  obtain ⟨above, rfl, hfollow⟩ := h.follow
  refine ⟨⟨above, by rw [List.map_append, List.append_assoc], hfollow⟩, h.atDirectory, fun n hn => ?_⟩
  rcases List.mem_append.mp hn with hn | hn
  · exact h.names n hn
  · obtain ⟨m, hm, heq⟩ := List.mem_map.mp hn
    exact Component.name.inj heq ▸ hmore m hm

/-- Where the components lead if anything is seen there. -/
theorem follow_found (h : Anchored t cs base names) (hfound : t.look (base ++ names) ≠ .nothing) :
    t.follow [] cs = if names.any isLongName then .error .nameTooLong else .ok (base ++ names) := by
  rw [h.follow_eq]
  exact FileTree.follow_found h.inside hfound

/-- The way to a directory is open if no name is too long. -/
theorem opened_at (h : Anchored t cs base names) (hthere : t.look (base ++ names) = .directory)
    (hshort : names.any isLongName = false) :
    t.follow [] cs = .ok (base ++ names) ∧ t.Open (base ++ names) := by
  have hfollow := h.follow_found (ne_nothing_of_directory hthere)
  rw [hshort, if_neg Bool.false_ne_true] at hfollow
  exact ⟨hfollow, open_follow (open_nil t) hfollow⟩

/-- The components lead to a directory if one is seen there and no name is too long. -/
theorem reaches_iff (h : Anchored t cs base names) : t.reachesDirectory cs = true ↔
    t.look (base ++ names) = .directory ∧ names.any isLongName = false := by
  rw [reachesDirectory]
  constructor
  · intro hreaches
    split at hreaches
    · next p hp =>
        rw [h.follow_eq] at hp
        obtain rfl := follow_names hp
        have hlook : t.look (base ++ names) = .directory := by
          rw [look_directory]
          rcases hseen : t.seen? (base ++ names) with _ | ⟨_ | entries⟩
          · rw [hseen] at hreaches
            cases hreaches
          · rw [hseen] at hreaches
            cases hreaches
          · exact ⟨entries, rfl⟩
        refine ⟨hlook, ?_⟩
        have hfound := FileTree.follow_found h.inside (ne_nothing_of_directory hlook)
        rw [hfound] at hp
        split at hp
        · cases hp
        · next hshort => exact Bool.eq_false_iff.mpr hshort
    · cases hreaches
  · rintro ⟨hlook, hshort⟩
    obtain ⟨entries, hseen⟩ := look_directory.mp hlook
    have hfound := h.follow_found (ne_nothing_of_directory hlook)
    rw [hshort, if_neg Bool.false_ne_true] at hfound
    rw [hfound]
    simp only [hseen]
    rfl

end Anchored

end ObservableStore.FileTree
