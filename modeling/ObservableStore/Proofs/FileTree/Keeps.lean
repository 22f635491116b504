import ObservableStore.Proofs.FileTree.Put
import ObservableStore.Proofs.Outcome

/-!
# `Proofs.FileTree.Keeps` — changes that leave files as they are

A change of a tree `KeepsBut` some positions what was in it: directories are still directories and
all other files are the same. Such changes add up (`KeepsBut.trans`), and a location that led
somewhere before a change leads there afterwards (`KeepsBut.follow`), since a step only asks whether
a directory has an entry. So a text that could be read can still be read there
(`KeepsBut.readText`).

Putting a new entry into a directory is such a change (`KeepsBut.put`). It needs an open way to the
directory, and following a location finds one (`open_follow`). A change that brings no other files
either is one of these positions only (`ChangesOnly`).
-/

namespace ObservableStore.FileTree

variable {t t' t'' u : FileTree} {p base : List String} {changed more : List (List String)}
variable {entries : List (String × FileTree)} {contents : Contents}

/-! ## What is seen -/

/-- What is seen lies there, or is the empty directory that stands for what is on the way out. -/
theorem seen?_eq_some : t.seen? p = some u ↔
    t.find? p = some u ∨ t.find? p = none ∧ isOutward p = true ∧ u = empty := by
  rw [seen?]
  cases t.find? p with
  | some v => simp
  | none =>
      by_cases hout : isOutward p = true
      · simp [hout, eq_comm]
      · simp [hout]

theorem seen?_of_find? (h : t.find? p = some u) : t.seen? p = some u :=
  seen?_eq_some.mpr (Or.inl h)

theorem seen?_file : t.seen? p = some (.file contents) ↔ t.find? p = some (.file contents) := by
  refine ⟨fun h => ?_, seen?_of_find?⟩
  rcases seen?_eq_some.mp h with hfind | ⟨-, -, hempty⟩
  · exact hfind
  · cases hempty

theorem find?_of_seen? (h : t.seen? p = some (.directory entries)) (name : String) :
    t.find? (p ++ [name]) = entries.lookup name := by
  rw [find?_append]
  rcases seen?_eq_some.mp h with hfind | ⟨hfind, -, hempty⟩
  · rw [hfind, Option.bind_some, find?, entry?]
    cases entries.lookup name <;> rfl
  · cases hempty
    rw [hfind]
    rfl

theorem not_file_of_seen? (h : t.seen? p = some (.directory entries)) :
    ∀ c, t.find? p ≠ some (.file c) := by
  intro c hfile
  rw [seen?_of_find? hfile] at h
  cases h

/-! ## Steps -/

/-- Where a component leads from a directory at `base` with the given entries. -/
inductive Leads (entries : List (String × FileTree)) (base : List String) :
    Component → List String → Prop
  | root : Leads entries base .root [outermost]
  | here : Leads entries base .here base
  | up : Leads entries base .up (enclosing base)
  | name {n : String} (hlong : isLongName n = false) (hfound : (entries.lookup n).isSome = true) :
    Leads entries base (.name n) (base ++ [n])

theorem step_eq_ok {c : Component} : t.step base c = .ok p ↔
    ∃ entries, t.seen? base = some (.directory entries) ∧ Leads entries base c p := by
  rw [step]
  constructor
  · intro h
    split at h
    · cases h
    · cases h
    · next entries hseen =>
        refine ⟨entries, hseen, ?_⟩
        cases c with
        | root => exact Except.ok.inj h ▸ .root
        | here => exact Except.ok.inj h ▸ .here
        | up => exact Except.ok.inj h ▸ .up
        | name n =>
            simp only at h
            split at h
            · cases h
            · next hlong =>
                split at h
                · next hfound => exact Except.ok.inj h ▸ .name (Bool.eq_false_iff.mpr hlong) hfound
                · cases h
  · rintro ⟨entries, hseen, hleads⟩
    rw [hseen]
    cases hleads with
    | root => rfl
    | here => rfl
    | up => rfl
    | name hlong hfound => simp [hlong, hfound]

theorem follow_append (cs ds : List Component) :
    t.follow base (cs ++ ds) = t.follow base cs >>= fun p => t.follow p ds := by
  induction cs generalizing base with
  | nil => rfl
  | cons c cs ih =>
      rw [List.cons_append, follow, follow, bind_assoc]
      congr 1
      exact funext fun next => ih

/-- Names lead to the position below. -/
theorem follow_names {names : List String} (h : t.follow base (names.map .name) = .ok p) :
    p = base ++ names := by
  induction names generalizing base with
  | nil =>
      cases h
      exact (List.append_nil _).symm
  | cons n names ih =>
      obtain ⟨next, hstep, hrest⟩ := bind_eq_ok.mp h
      obtain ⟨entries, -, hleads⟩ := step_eq_ok.mp hstep
      cases hleads
      rw [ih hrest, List.append_assoc, List.singleton_append]

/-! ## Changes -/

/-- A change of a tree, from `t` to `t'`, that leaves every file as it is except at the positions in
    `changed`. -/
structure KeepsBut (changed : List (List String)) (t t' : FileTree) : Prop where
  directories : ∀ {p entries}, t.seen? p = some (.directory entries) →
    ∃ entries', t'.seen? p = some (.directory entries')
  files : ∀ {p contents}, t.find? p = some (.file contents) → p ∉ changed →
    t'.find? p = some (.file contents)
  /-- Nothing is removed. -/
  found : ∀ {p u}, t.find? p = some u → ∃ u', t'.find? p = some u'

namespace KeepsBut

theorem refl (changed : List (List String)) (t : FileTree) : KeepsBut changed t t where
  directories h := ⟨_, h⟩
  files h _ := h
  found h := ⟨_, h⟩

theorem trans (h : KeepsBut changed t t') (h' : KeepsBut more t' t'') :
    KeepsBut (changed ++ more) t t'' where
  directories hp := by
    obtain ⟨entries', hp'⟩ := h.directories hp
    exact h'.directories hp'
  files hp hne := by
    rw [List.mem_append, not_or] at hne
    exact h'.files (h.files hp hne.1) hne.2
  found hp := by
    obtain ⟨u', hp'⟩ := h.found hp
    exact h'.found hp'

/-- A step that can be taken can still be taken. -/
theorem step {c : Component} (h : KeepsBut changed t t') (hs : t.step base c = .ok p) :
    t'.step base c = .ok p := by
  obtain ⟨entries, hseen, hleads⟩ := step_eq_ok.mp hs
  obtain ⟨entries', hseen'⟩ := h.directories hseen
  refine step_eq_ok.mpr ⟨entries', hseen', ?_⟩
  cases hleads with
  | root => exact .root
  | here => exact .here
  | up => exact .up
  | @name n hlong hfound =>
      -- the directory may have other entries now, but it still has this one
      obtain ⟨u, hu⟩ := Option.isSome_iff_exists.mp hfound
      obtain ⟨u', hu'⟩ := h.found ((find?_of_seen? hseen n).trans hu)
      refine .name hlong (Option.isSome_iff_exists.mpr ⟨u', ?_⟩)
      rw [← find?_of_seen? hseen', hu']

/-- What led to a position still leads there. -/
theorem follow {cs : List Component} (h : KeepsBut changed t t') (hf : t.follow base cs = .ok p) :
    t'.follow base cs = .ok p := by
  induction cs generalizing base with
  | nil => exact hf
  | cons c rest ih =>
      rw [FileTree.follow] at hf ⊢
      obtain ⟨next, hstep, hrest⟩ := bind_eq_ok.mp hf
      exact bind_eq_ok.mpr ⟨next, h.step hstep, ih hrest⟩

end KeepsBut

/-! ## Open ways -/

/-- A step from the end of an open way goes along an open way. -/
theorem open_step {c : Component} (h : t.Open base) (hs : t.step base c = .ok p) : t.Open p := by
  obtain ⟨entries, hseen, hleads⟩ := step_eq_ok.mp hs
  have hbase := not_file_of_seen? hseen
  cases hleads with
  | root =>
      -- the tree itself is no file, since a step was taken from somewhere in it
      refine (open_nil t).concat (fun contents hroot => ?_) outermost
      by_cases hnil : base = []
      · exact hbase contents (hnil ▸ hroot)
      · exact h [] List.nil_prefix (Ne.symm hnil) contents hroot
  | here => exact h
  | up =>
      rw [enclosing]
      split
      · exact h
      · split
        · exact h.concat hbase around
        · exact h.dropLast
  | @name n => exact h.concat hbase n

theorem open_follow {cs : List Component} (h : t.Open base) (hf : t.follow base cs = .ok p) :
    t.Open p := by
  induction cs generalizing base with
  | nil =>
      cases hf
      exact h
  | cons c rest ih =>
      obtain ⟨next, hstep, hrest⟩ := bind_eq_ok.mp hf
      exact ih (open_step h hstep) hrest

/-! ## New entries -/

/-- **A new entry changes no other file.** What is put has no entries of its own, it replaces no
    directory, and on the way out of the tree it is a directory. -/
theorem KeepsBut.put {new : FileTree} (hopen : t.Open p)
    (hp : ∀ entries, t.find? p ≠ some (.directory entries)) (hnew : ∀ name, new.entry? name = none)
    (hfile : ∀ contents, t.find? p = some (.file contents) → p ∈ changed)
    (hout : isOutward p = true → new = empty) : KeepsBut changed t (t.put p new) := by
  have hself := find?_put_self new hopen
  constructor
  · intro q entries hseen
    rcases seen?_eq_some.mp hseen with hq | ⟨hq, hqout, -⟩
    · have hne : q ≠ p := fun heq => hp entries (heq ▸ hq)
      obtain ⟨u, hu, hstays⟩ := find?_put_other new hp hne hq
      obtain ⟨entries', rfl⟩ := hstays.directory
      exact ⟨entries', seen?_of_find? hu⟩
    · by_cases hqp : q = p
      · subst hqp
        exact ⟨[], seen?_of_find? (hself.trans (congrArg some (hout hqout)))⟩
      · -- a directory on the way out counts as empty until one is made there
        have hnofile := find?_put_nothing hnew hqp hq
        cases hfind : (t.put p new).find? q with
        | none => exact ⟨[], seen?_eq_some.mpr (Or.inr ⟨hfind, hqout, rfl⟩)⟩
        | some u =>
            cases u with
            | file c => exact absurd hfind (hnofile c)
            | directory entries' => exact ⟨entries', seen?_of_find? hfind⟩
  · intro q contents hq hunchanged
    have hne : q ≠ p := fun heq => hunchanged (heq ▸ hfile contents (heq ▸ hq))
    obtain ⟨u, hu, hstays⟩ := find?_put_other new hp hne hq
    exact hstays.file ▸ hu
  · intro q u hq
    by_cases hqp : q = p
    · exact ⟨new, hqp ▸ hself⟩
    · obtain ⟨u', hu', -⟩ := find?_put_other new hp hqp hq
      exact ⟨u', hu'⟩

/-! ## Nothing else -/

/-- A change that leaves every file as it is except at the positions in `changed`, and makes no file
    anywhere else. -/
structure ChangesOnly (changed : List (List String)) (t t' : FileTree) : Prop
    extends KeepsBut changed t t' where
  brings : ∀ {p contents}, t'.find? p = some (.file contents) → p ∉ changed →
    t.find? p = some (.file contents)

namespace ChangesOnly

theorem refl (changed : List (List String)) (t : FileTree) : ChangesOnly changed t t where
  toKeepsBut := .refl changed t
  brings h _ := h

theorem trans (h : ChangesOnly changed t t') (h' : ChangesOnly more t' t'') :
    ChangesOnly (changed ++ more) t t'' where
  toKeepsBut := h.toKeepsBut.trans h'.toKeepsBut
  brings hp hne := by
    rw [List.mem_append, not_or] at hne
    exact h.brings (h'.brings hp hne.2) hne.1

/-- Elsewhere the two trees have the same files. -/
theorem files_iff (h : ChangesOnly changed t t') (hp : p ∉ changed) (contents : Contents) :
    t'.find? p = some (.file contents) ↔ t.find? p = some (.file contents) :=
  ⟨fun hfile => h.brings hfile hp, fun hfile => h.files hfile hp⟩

/-- A new entry makes no file but itself. -/
theorem put {new : FileTree} (hopen : t.Open p)
    (hp : ∀ entries, t.find? p ≠ some (.directory entries)) (hnew : ∀ name, new.entry? name = none)
    (hfile : ∀ contents, t.find? p = some (.file contents) → p ∈ changed)
    (hout : isOutward p = true → new = empty)
    (hbrings : ∀ contents, new = .file contents → p ∈ changed) :
    ChangesOnly changed t (t.put p new) where
  toKeepsBut := .put hopen hp hnew hfile hout
  brings := by
    intro q contents hq hunchanged
    by_cases hqp : q = p
    · subst hqp
      rw [find?_put_self new hopen] at hq
      exact absurd (hbrings contents (Option.some.inj hq)) hunchanged
    · cases hfind : t.find? q with
      | none => exact absurd hq (find?_put_nothing hnew hqp hfind contents)
      | some u =>
          obtain ⟨u', hu', hstays⟩ := find?_put_other new hp hqp hfind
          obtain rfl : u' = .file contents := Option.some.inj (hu'.symm.trans hq)
          exact congrArg some hstays.of_file

end ChangesOnly

/-! ## Reading -/

/-- A location leads to a file, and does not ask for a directory. -/
structure LeadsToFile (t : FileTree) (l : Location) (p : List String) (contents : Contents) :
    Prop where
  allowed : refusal? l = none
  follow : t.follow [] l.components = .ok p
  endsInName : l.asksForDirectory = false
  found : t.find? p = some (.file contents)

theorem LeadsToFile.position {l : Location} (h : t.LeadsToFile l p contents) :
    t.position l = .ok p := by
  rw [FileTree.position, h.allowed]
  exact bind_eq_ok.mpr ⟨p, h.follow, by rw [h.endsInName]; rfl⟩

theorem readText_eq_ok {l : Location} {s : String} :
    t.readText l = .ok s ↔ ∃ p, t.LeadsToFile l p (.text s) := by
  rw [readText, position]
  constructor
  · intro h
    obtain ⟨p, hp, hread⟩ := bind_eq_ok.mp h
    have hseen : t.seen? p = some (.file (.text s)) := by
      split at hread
      · next heq =>
          cases hread
          exact heq
      · cases hread
      · cases hread
      · cases hread
    split at hp
    · cases hp
    · next hallowed =>
        obtain ⟨q, hfollow, hslash⟩ := bind_eq_ok.mp hp
        split at hslash
        · cases hslash
        · next hname =>
            cases hslash
            refine ⟨p, hallowed, hfollow, ?_, seen?_file.mp hseen⟩
            simpa [hseen, isDirectory] using hname
  · rintro ⟨p, hleads⟩
    refine bind_eq_ok.mpr ⟨p, hleads.position, ?_⟩
    rw [seen?_of_find? hleads.found]

/-- A text that lies elsewhere can be read as before. -/
theorem KeepsBut.readText {l : Location} {s : String} (h : KeepsBut changed t t')
    (hr : t.readText l = .ok s) (hne : ∀ p, t.follow [] l.components = .ok p → p ∉ changed) :
    t'.readText l = .ok s := by
  obtain ⟨p, hallowed, hfollow, hname, hfound⟩ := readText_eq_ok.mp hr
  exact readText_eq_ok.mpr
    ⟨p, hallowed, h.follow hfollow, hname, h.files hfound (hne p hfollow)⟩

end ObservableStore.FileTree
