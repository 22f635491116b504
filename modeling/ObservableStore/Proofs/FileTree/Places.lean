import ObservableStore.Proofs.FileTree.Listing

/-!
# `Proofs.FileTree.Places` — the places that locations stand for

A location that begins with a directory that is there and goes on with names stands for the place
that the names lead to, whether or not anything is there (`Stands`). What such a location gives is
decided by what is seen at its place: the text of a file (`readText_file`), and the files below a
directory (`filesWithExtension_eq`), whose locations go on with names (`anchored_locate`). Other
locations break off on the way, some of them whatever is written elsewhere (`LeadsNowhere`).
-/

namespace ObservableStore.FileTree

open Location (IsName)

variable {P : List String → FileTree → Prop} {t t' : FileTree} {l : Location} {s : String}
variable {p base names more : List String} {n : String} {contents : Contents}

/-- A location stands for a place. -/
def Stands (t : FileTree) (l : Location) (p : List String) : Prop :=
  ∃ base names, Anchored t l.components base names ∧ p = base ++ names

theorem Stands.of_directories (h : t.Stands l p)
    (hkeeps : ∀ q, t.look q = .directory → t'.look q = .directory) : t'.Stands l p := by
  obtain ⟨base, names, hanchored, rfl⟩ := h
  exact ⟨base, names, hanchored.of_directories hkeeps, rfl⟩

theorem Stands.grown (h : t.Stands l p) (hg : Grown P t t') : t'.Stands l p :=
  h.of_directories fun _ hq => hg.directory hq

/-- The place of a location is the same however it is split. -/
theorem Stands.unique {q : List String} (h : t.Stands l p) (h' : t.Stands l q) : p = q := by
  obtain ⟨base, names, ⟨⟨above, heq, hfollow⟩, hdirectory, hnames⟩, rfl⟩ := h
  obtain ⟨base', names', ⟨⟨above', heq', hfollow'⟩, hdirectory', -⟩, rfl⟩ := h'
  -- one of the two splits is further on, by names that lead to the directory where it begins
  have hfurther : ∀ {above above' : List Component} {names names' base base'},
      above ++ names.map Component.name = above' ++ names'.map .name →
      t.follow [] above = .ok base → t.follow [] above' = .ok base' →
      above.length ≤ above'.length → base ++ names = base' ++ names' := by
    intro above above' names names' base base' heq hfollow hfollow' hle
    obtain ⟨mid, rfl⟩ : above <+: above' :=
      List.prefix_of_prefix_length_le (heq ▸ List.prefix_append above _)
        (List.prefix_append above' _) hle
    rw [List.append_assoc] at heq
    obtain ⟨front, rest, rfl, rfl, hrest⟩ := List.map_eq_append_iff.mp (List.append_cancel_left heq)
    obtain rfl := List.map_injective_iff.mpr (fun _ _ => Component.name.inj) hrest
    rw [follow_append, hfollow] at hfollow'
    obtain rfl := follow_names hfollow'
    rw [List.append_assoc]
  rcases Nat.le_total above.length above'.length with hle | hle
  · exact hfurther (heq.symm.trans heq') hfollow hfollow' hle
  · exact (hfurther (heq'.symm.trans heq) hfollow' hfollow hle).symm

/-! ## Locations that lead nowhere -/

/-- A location goes on from a directory with a name that is too long, with one of a file that is not
    its last, or with one of nothing at a position of which nothing can become. -/
def LeadsNowhere (t : FileTree) (mayAppear : List String → Prop) (l : Location) : Prop :=
  ∃ above n rest base, l.components = above ++ .name n :: rest ∧ t.follow [] above = .ok base ∧
    t.look base = .directory ∧ (isLongName n = true ∨
      (rest ≠ [] ∧ ∃ c, t.look (base ++ [n]) = .file c) ∨
      (t.look (base ++ [n]) = .nothing ∧ ¬ mayAppear (base ++ [n])))

variable {mayAppear : List String → Prop}

/-- It does so as long as directories stay, files do not become directories and nothing appears
    elsewhere. -/
theorem LeadsNowhere.mono (h : t.LeadsNowhere mayAppear l)
    (hdirectory : ∀ q, t.look q = .directory → t'.look q = .directory)
    (hfile : ∀ q c, t.look q = .file c →
      (∃ c', t'.look q = .file c') ∨ (t'.look q = .nothing ∧ ¬ mayAppear q))
    (hnothing : ∀ q, t.look q = .nothing → ¬ mayAppear q → t'.look q = .nothing) :
    t'.LeadsNowhere mayAppear l := by
  obtain ⟨above, n, rest, base, heq, hfollow, hbase, hstop⟩ := h
  have hnames : ∀ m, .name m ∈ above → IsName m := fun m hm =>
    Location.isName_of_mem (heq ▸ List.mem_append_left _ hm)
  refine ⟨above, n, rest, base, heq, follow_of_directories hnames hdirectory hfollow hbase,
    hdirectory base hbase, ?_⟩
  rcases hstop with hlong | ⟨hrest, c, hc⟩ | ⟨hnone, hnever⟩
  · exact Or.inl hlong
  · rcases hfile _ c hc with hstill | hgone
    · exact Or.inr (Or.inl ⟨hrest, hstill⟩)
    · exact Or.inr (Or.inr hgone)
  · exact Or.inr (Or.inr ⟨hnothing _ hnone hnever, hnever⟩)

theorem LeadsNowhere.grown (h : t.LeadsNowhere mayAppear l) (hg : Grown P t t')
    (hP : ∀ q new, P q new → mayAppear q) : t'.LeadsNowhere mayAppear l :=
  h.mono (fun _ hq => hg.directory hq) (fun _ _ hc => Or.inl (hg.file hc)) fun _ hq hnever =>
    (hg.same fun _ hnew => hnever (hP _ _ hnew)).trans hq

theorem LeadsNowhere.follow (h : t.LeadsNowhere mayAppear l) :
    ∃ e, t.follow [] l.components = .error e := by
  obtain ⟨above, n, rest, base, heq, hfollow, hbase, hstop⟩ := h
  have hn : Inside n := inside_of_isName (Location.isName_of_mem (l := l) (by rw [heq]; simp))
  have hstep : t.follow [] l.components = t.step base (.name n) >>= fun p => t.follow p rest := by
    rw [heq, follow_append, hfollow]
    rfl
  rw [hstep, step_name hbase hn]
  rcases hstop with hlong | ⟨hrest, c, hc⟩ | ⟨hnone, -⟩
  · rw [if_pos hlong]
    exact ⟨.nameTooLong, rfl⟩
  · by_cases hlong : isLongName n = true
    · rw [if_pos hlong]
      exact ⟨.nameTooLong, rfl⟩
    · obtain ⟨d, rest, rfl⟩ := List.exists_cons_of_ne_nil hrest
      rw [if_neg hlong, if_neg (ne_nothing_of_file hc)]
      refine ⟨.notADirectory, ?_⟩
      show t.step (base ++ [n]) d >>= _ = _
      rw [step_of_file hc]
      rfl
  · by_cases hlong : isLongName n = true
    · rw [if_pos hlong]
      exact ⟨.nameTooLong, rfl⟩
    · rw [if_neg hlong, if_pos hnone]
      exact ⟨.notFound, rfl⟩

/-- No files are found where a location leads nowhere. -/
theorem LeadsNowhere.filesWithExtension (h : t.LeadsNowhere mayAppear l) (extension : String) :
    t.filesWithExtension l extension = none := by
  obtain ⟨e, hfollow⟩ := h.follow
  rw [FileTree.filesWithExtension, at?, position]
  cases refusal? l with
  | some e => rfl
  | none =>
      rw [hfollow]
      rfl

/-! ## Files -/

/-- The text that a file holds. -/
def textOf : Contents → Except FileFault String
  | .text s => .ok s
  | .binary _ => .error .notText

/-- The text of the file at a place. -/
theorem readText_file (h : Anchored t l.components base names)
    (hfile : t.look (base ++ names) = .file contents) :
    t.readText l = match refusal? l with
      | some e => .error e
      | none =>
        if names.any isLongName then .error .nameTooLong
        else if l.asksForDirectory then .error .notADirectory
        else textOf contents := by
  have hfollow := h.follow_found (ne_nothing_of_file hfile)
  have hseen := seen?_file.mpr (look_file.mp hfile)
  rw [readText, position]
  cases refusal? l with
  | some e => rfl
  | none =>
      simp only [hfollow]
      by_cases hlong : names.any isLongName = true
      · simp only [if_pos hlong, bind, Except.bind]
      · simp only [if_neg hlong, bind, Except.bind, hseen, Option.any_some, isDirectory,
          Bool.not_false, Bool.and_true]
        by_cases hslash : l.asksForDirectory = true
        · simp only [if_pos hslash]
        · simp only [if_neg hslash, hseen]
          cases contents <;> rfl

/-- A file is read in the same way where the same is seen. -/
theorem readText_congr (h : Anchored t l.components base names)
    (h' : Anchored t' l.components base names)
    (hfile : t.look (base ++ names) = .file contents)
    (hsame : t'.look (base ++ names) = t.look (base ++ names)) : t'.readText l = t.readText l := by
  rw [readText_file h hfile, readText_file h' (hsame.trans hfile)]

/-! ## Directories -/

/-- The files with an extension below a directory, in the order of a walk. -/
theorem filesWithExtension_eq (h : Anchored t l.components base names) (extension : String) :
    t.filesWithExtension l extension =
      if refusal? l = none ∧ t.look (base ++ names) = .directory ∧ names.any isLongName = false then
        some ((t.found (base ++ names) extension).map (locate l))
      else none := by
  rw [filesWithExtension, at?, position]
  cases hallowed : refusal? l with
  | some e => rfl
  | none =>
      cases hreaches : t.reachesDirectory l.components with
      | true =>
          obtain ⟨hdirectory, hshort⟩ := h.reaches_iff.mp hreaches
          obtain ⟨entries, hseen⟩ := look_directory.mp hdirectory
          have hfollow := h.follow_found (ne_nothing_of_directory hdirectory)
          rw [hshort, if_neg Bool.false_ne_true] at hfollow
          rw [if_pos ⟨rfl, hdirectory, hshort⟩]
          simp [hfollow, bind, Except.bind, hseen, isDirectory, found, Function.comp_def]
      | false =>
          rw [if_neg fun hthere => Bool.false_ne_true (hreaches ▸ h.reaches_iff.mpr hthere.2)]
          rw [reachesDirectory] at hreaches
          cases hfollow : t.follow [] l.components with
          | error e => rfl
          | ok p =>
              rw [hfollow] at hreaches
              rcases hseen : t.seen? p with _ | ⟨c | entries⟩
              · cases l.asksForDirectory <;> simp [bind, Except.bind, hseen]
              · cases l.asksForDirectory <;> simp [bind, Except.bind, hseen, isDirectory]
              · simp [hseen, isDirectory] at hreaches

/-- The location of what is found below a place. -/
theorem anchored_locate (h : Anchored t l.components base names) (hmore : ∀ n ∈ more, IsName n) :
    Anchored t (locate l more).components base (names ++ more) := by
  rw [locate, Location.components_foldl_push l hmore]
  exact h.append hmore

end ObservableStore.FileTree
