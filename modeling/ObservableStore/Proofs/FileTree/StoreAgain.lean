import ObservableStore.Proofs.FileTree.MakeBelow
import ObservableStore.Proofs.Sink.NoOverwrite

/-!
# `Proofs.FileTree.StoreAgain` — storing a text once more

Where a location begins with a directory that is there and goes on with names, storing a text adds
the directories around it and the file, and nothing else (`store_grown`). If it fails, it fails for
the same reason on every tree that has grown since, and then it adds nothing (`store_again`): each
reason is a file in the way, a directory at the place, a name that is too long or a location that
cannot be tried, and none of these goes away. Where the file is there already with the text, storing
it does not fail (`store_of_holds`).
-/

namespace ObservableStore.FileTree

open Location (IsName)

variable {P : List String → FileTree → Prop} {t t' t'' : FileTree} {l : Location} {s : String}
variable {cs : List Component} {p base names : List String} {n : String} {e : FileFault}

/-! ## The directories around -/

/-- Where a location cannot be tried, no directory is made. -/
theorem makeDirectories_refused (hnames : ∀ n, .name n ∈ cs → IsName n) (hne : cs ≠ [])
    (h : refusal? (.ofComponents cs) = some e) :
    t.makeDirectories cs.reverse = (if t.reachesDirectory cs then none else some e, t) := by
  have htext := text_ne_empty hnames hne
  have hfound : e ≠ .notFound := by
    rintro rfl
    rw [refusal?, if_neg (by simpa using htext)] at h
    split at h
    · cases h
    · split at h <;> cases h
  obtain ⟨init, c, rfl⟩ := List.eq_nil_or_concat cs |>.resolve_left hne
  rw [List.concat_eq_append] at h ⊢
  have hmake : t.makeDirectory (init ++ [c]) = .error e := by
    rw [makeDirectory, h]
  rw [makeDirectories_found (by rw [hmake]; exact fun heq => hfound (Except.error.inj heq)), hmake]
  rfl

/-- Entries of a kind that is added around a location. -/
def MadeAround (cs : List Component) (base names : List String) (p : List String)
    (new : FileTree) : Prop :=
  refusal? (.ofComponents cs) = none ∧ MadeBelow base names p new

/-- A location that can be tried is reached by a walk, and no other one changes anything. -/
theorem makeDirectories_cases (h : Anchored t cs base names) :
    t.makeDirectories cs.reverse = (none, t) ∧ names = [] ∨
    (∃ e, refusal? (.ofComponents cs) = some e ∧ t.makeDirectories cs.reverse =
      (if t.reachesDirectory cs then none else some e, t)) ∨
    refusal? (.ofComponents cs) = none ∧ t.makeDirectories cs.reverse = t.makeBelow base names := by
  obtain ⟨above, rfl, hfollow⟩ := h.follow
  by_cases hne : above ++ names.map Component.name = []
  · refine Or.inl ⟨?_, List.map_eq_nil_iff.mp (List.append_eq_nil_iff.mp hne).2⟩
    rw [hne]
    rfl
  · cases hallowed : refusal? (.ofComponents (above ++ names.map Component.name)) with
    | some e => exact Or.inr (Or.inl ⟨e, rfl, makeDirectories_refused h.names hne hallowed⟩)
    | none => exact Or.inr (Or.inr ⟨rfl, makeDirectories_eq h hfollow fun _ => hallowed⟩)

theorem makeDirectories_grown (h : Anchored t cs base names) :
    Grown (MadeAround cs base names) t (t.makeDirectories cs.reverse).2 := by
  rcases makeDirectories_cases h with ⟨heq, -⟩ | ⟨e, -, heq⟩ | ⟨hallowed, heq⟩
  · rw [heq]
  · rw [heq]
  · rw [heq]
    exact (makeBelow_grown h.opened h.atDirectory h.inside).mono fun _ _ hmade => ⟨hallowed, hmade⟩

/-- What is made again after the tree has grown is made with the same outcome, and nothing is added.
    No entry may be added at a place that cannot be tried. -/
theorem makeDirectories_again (h : Anchored t cs base names)
    (hg : Grown P (t.makeDirectories cs.reverse).2 t')
    (hP : refusal? (.ofComponents cs) ≠ none → ¬ P (base ++ names) empty) :
    t'.makeDirectories cs.reverse = ((t.makeDirectories cs.reverse).1, t') := by
  by_cases hne : cs = []
  · subst hne
    rfl
  · have h' : Anchored t' cs base names := (h.grown (makeDirectories_grown h)).grown hg
    cases hallowed : refusal? (.ofComponents cs) with
    | some e =>
        rw [makeDirectories_refused h.names hne hallowed] at hg ⊢
        rw [makeDirectories_refused h.names hne hallowed]
        have hnever := hP (by rw [hallowed]; exact Option.some_ne_none e)
        have hreaches : t'.reachesDirectory cs = t.reachesDirectory cs := by
          rw [Bool.eq_iff_iff, h'.reaches_iff, h.reaches_iff]
          refine and_congr_left fun _ => ⟨fun hthere => ?_, hg.directory⟩
          exact (hg.directory_cases hthere).resolve_right hnever
        rw [hreaches]
    | none =>
        obtain ⟨above, rfl, hfollow⟩ := h.follow
        obtain ⟨above', heq, hfollow'⟩ := h'.follow
        obtain rfl := List.append_cancel_right heq
        rw [makeDirectories_eq h hfollow fun _ => hallowed] at hg ⊢
        rw [makeDirectories_eq h' hfollow' fun _ => hallowed]
        exact makeBelow_again h.opened h.atDirectory h.inside hg

/-- Once all directories are made, the components lead to the last one. -/
theorem makeDirectories_none (h : Anchored t cs base names)
    (hmade : t.makeDirectories cs.reverse = (none, t')) :
    t'.look (base ++ names) = .directory ∧ names.any isLongName = false := by
  rcases makeDirectories_cases h with ⟨heq, rfl⟩ | ⟨e, -, heq⟩ | ⟨-, heq⟩
  · rw [heq] at hmade
    obtain rfl := (Prod.mk.inj hmade).2
    rw [List.append_nil]
    exact ⟨h.atDirectory, rfl⟩
  · rw [heq] at hmade
    obtain ⟨hreaches, rfl⟩ := Prod.mk.inj hmade
    refine h.reaches_iff.mp ?_
    by_contra hnot
    rw [if_neg hnot] at hreaches
    cases hreaches
  · rw [heq] at hmade
    exact makeBelow_none h.opened h.atDirectory h.inside hmade

/-- Where the components lead to a directory, nothing is made. -/
theorem makeDirectories_done (h : Anchored t cs base names)
    (hthere : t.look (base ++ names) = .directory) (hshort : names.any isLongName = false) :
    t.makeDirectories cs.reverse = (none, t) := by
  rcases makeDirectories_cases h with ⟨heq, -⟩ | ⟨e, -, heq⟩ | ⟨-, heq⟩
  · exact heq
  · rw [heq, if_pos (h.reaches_iff.mpr ⟨hthere, hshort⟩)]
  · have hfound := FileTree.follow_found h.inside (ne_nothing_of_directory hthere)
    rw [hshort, if_neg Bool.false_ne_true] at hfound
    rw [heq]
    rcases walk h.opened h.atDirectory h.inside with
      ⟨-, -, hmake⟩ | ⟨-, hfile, -⟩ | ⟨hf, -, -, -⟩ | ⟨hf, -⟩
    · exact hmake
    · rw [hthere] at hfile
      cases hfile
    · rw [hfound] at hf
      cases hf
    · rw [hfound] at hf
      cases hf

/-! ## The file -/

/-- Why a text cannot be written at a place in a directory that is there, if its location does not end
    in a `.`. -/
def writeFault? (t : FileTree) (l : Location) (p : List String) (n : String) : Option FileFault :=
  match refusal? l with
  | some e => some e
  | none =>
    if l.endsInSlash ∨ t.look (p ++ [n]) = .directory then some .isADirectory
    else if isLongName n then some .nameTooLong
    else none

theorem writeText_eq (hdot : l.endsInDot = false)
    (hfollow : t.follow [] l.components.dropLast = .ok p) (hp : t.look p = .directory)
    (hlast : l.components.getLast? = some (.name n)) (hn : Inside n) :
    t.writeText l s = match t.writeFault? l p n with
      | some e => .error e
      | none => .ok (t.put (p ++ [n]) (.file (.text s))) := by
  obtain ⟨entries, hseen⟩ := look_directory.mp hp
  have hentry : (entries.lookup n).any isDirectory = true ↔ t.look (p ++ [n]) = .directory := by
    rw [look_concat hseen hn]
    rcases entries.lookup n with _ | ⟨_ | _⟩ <;> simp [sight, isDirectory]
  rw [writeText, writeFault?]
  cases refusal? l with
  | some e => rfl
  | none =>
      simp only [hdot, Bool.false_eq_true, if_false, hfollow, bind, Except.bind, hseen, hlast,
        Bool.or_eq_true, hentry]
      by_cases hfree : l.endsInSlash = true ∨ t.look (p ++ [n]) = .directory
      · rw [if_pos hfree, if_pos hfree]
      · rw [if_neg hfree, if_neg hfree]
        by_cases hlong : isLongName n = true
        · rw [if_pos hlong, if_pos hlong]
        · rw [if_neg hlong, if_neg hlong]

/-- A text that cannot be written cannot be written later, for the same reason. -/
theorem writeFault?_grown (h : Grown P t t') (hfault : t.writeFault? l p n = some e) :
    t'.writeFault? l p n = some e := by
  rw [writeFault?] at hfault ⊢
  cases hallowed : refusal? l with
  | some e => rwa [hallowed] at hfault
  | none =>
      rw [hallowed] at hfault
      simp only at hfault ⊢
      by_cases hslash : l.endsInSlash = true
      · rwa [if_pos (Or.inl hslash)] at hfault ⊢
      · cases hlook : t.look (p ++ [n]) with
        | directory => simpa [h.directory hlook, hlook] using hfault
        | file c =>
            obtain ⟨c', hc'⟩ := h.file hlook
            simpa [hc', hlook, hslash] using hfault
        | nothing =>
            by_cases hlong : isLongName n = true
            · simpa [h.nothing_long hlong hlook, hlook, hslash] using hfault
            · simp [hlook, hslash, hlong] at hfault

/-- What may be written is a file in the place of nothing or of a file. -/
theorem writeFault?_none (h : t.writeFault? l p n = none) :
    t.look (p ++ [n]) ≠ .directory ∧ isLongName n = false := by
  rw [writeFault?] at h
  split at h
  · cases h
  · split at h
    · cases h
    · next hfree =>
        split at h
        · cases h
        · next hshort => exact ⟨fun hd => hfree (Or.inr hd), Bool.eq_false_iff.mpr hshort⟩

/-- What is seen where a text is found. -/
theorem look_of_holds (h : Anchored t l.components base names)
    (hholds : DirectorySink.holds t l s = true) :
    t.look (base ++ names) = .file (.text s) := by
  obtain ⟨q, hleads⟩ := readText_eq_ok.mp (DirectorySink.readText_of_holds hholds)
  have hfollow := hleads.follow
  rw [h.follow_eq] at hfollow
  obtain rfl := follow_names hfollow
  exact look_file.mpr hleads.found

/-! ## The whole store -/

section

variable {cs : List Component} (h : Anchored t l.components base (names ++ [n]))
variable (hdot : l.endsInDot = false)

/-- Entries of a kind that storing a text adds. -/
def StoredAt (l : Location) (base names : List String) (n : String) (p : List String)
    (new : FileTree) : Prop :=
  MadeAround l.components.dropLast base names p new ∨
  p = base ++ names ++ [n] ∧ ∃ s, new = .file (.text s)

include h

theorem Anchored.around : Anchored t l.components.dropLast base names := by
  obtain ⟨above, heq, hfollow⟩ := h.follow
  refine ⟨⟨above, ?_, hfollow⟩, h.atDirectory, fun m hm => h.names m (List.dropLast_subset _ hm)⟩
  rw [heq, List.map_append, List.map_singleton, ← List.append_assoc, List.dropLast_concat]

theorem Anchored.getLast? : l.components.getLast? = some (.name n) := by
  obtain ⟨above, heq, -⟩ := h.follow
  rw [heq, List.map_append, List.map_singleton, ← List.append_assoc, List.getLast?_concat]

theorem Anchored.last : Inside n := h.inside n (by simp)

include hdot

/-- A text is stored once all directories around it are made. -/
theorem store_eq (s : String) : t.store l s =
    match t.makeDirectories l.components.dropLast.reverse with
    | (some e, t') => (some e, t')
    | (none, t') => match t'.writeFault? l (base ++ names) n with
      | some e => (some e, t')
      | none => (none, t'.put (base ++ names ++ [n]) (.file (.text s))) := by
  rw [store]
  cases hmade : t.makeDirectories l.components.dropLast.reverse with
  | mk fault t' =>
      cases fault with
      | some e => rfl
      | none =>
          obtain ⟨hthere, hshort⟩ := makeDirectories_none h.around hmade
          have hgrown := makeDirectories_grown h.around
          rw [hmade] at hgrown
          obtain ⟨hfollow, -⟩ := (h.around.grown hgrown).opened_at hthere hshort
          simp only [writeText_eq hdot hfollow hthere h.getLast? h.last]
          cases t'.writeFault? l (base ++ names) n <;> rfl

/-- **Storing a text adds the directories around it and its file**, and nothing else. -/
theorem store_grown (s : String) : Grown (StoredAt l base names n) t (t.store l s).2 := by
  have hgrown := makeDirectories_grown h.around
  have hmono := hgrown.mono (Q := StoredAt l base names n) fun _ _ hmade => Or.inl hmade
  rw [store_eq h hdot s]
  cases hmade : t.makeDirectories l.components.dropLast.reverse with
  | mk fault t' =>
      rw [hmade] at hmono hgrown
      cases fault with
      | some e => exact hmono
      | none =>
          simp only
          cases hfault : t'.writeFault? l (base ++ names) n with
          | some e => exact hmono
          | none =>
              obtain ⟨hthere, hshort⟩ := makeDirectories_none h.around hmade
              obtain ⟨-, hopen⟩ := (h.around.grown hgrown).opened_at hthere hshort
              obtain ⟨hfree, hshort'⟩ := writeFault?_none hfault
              have hadds : Adds (StoredAt l base names n) t' (base ++ names) n (.file (.text s))
                  (t'.put (base ++ names ++ [n]) (.file (.text s))) :=
                { opened := hopen
                  atDirectory := hthere
                  inside := h.last
                  short := hshort'
                  isNew := .file hfree
                  allowed := Or.inr ⟨rfl, s, rfl⟩
                  result := rfl }
              exact hmono.trans hadds.grown

/-- **A text that could not be stored cannot be stored later**, for the same reason, and the attempt
    adds nothing. -/
theorem store_again (hfail : (t.store l s).1 = some e) (hg : Grown P (t.store l s).2 t')
    (hP : refusal? (.ofComponents l.components.dropLast) ≠ none → ¬ P (base ++ names) empty) :
    t'.store l s = (some e, t') := by
  have h' : Anchored t' l.components base (names ++ [n]) :=
    (h.grown (store_grown h hdot s)).grown hg
  rw [store_eq h hdot s] at hfail hg
  rw [store_eq h' hdot s]
  cases hmade : t.makeDirectories l.components.dropLast.reverse with
  | mk fault t₁ =>
      rw [hmade] at hfail hg
      cases fault with
      | some e' =>
          obtain rfl := Option.some.inj hfail
          have hmade' : Grown P (t.makeDirectories l.components.dropLast.reverse).2 t' := by
            rw [hmade]
            exact hg
          have hagain := makeDirectories_again h.around hmade' hP
          rw [hagain, hmade]
      | none =>
          simp only at hfail hg
          cases hfault : t₁.writeFault? l (base ++ names) n with
          | none =>
              rw [hfault] at hfail
              cases hfail
          | some e' =>
              rw [hfault] at hfail hg
              obtain rfl := Option.some.inj hfail
              have hmade' : Grown P (t.makeDirectories l.components.dropLast.reverse).2 t' := by
                rw [hmade]
                exact hg
              have hagain := makeDirectories_again h.around hmade' hP
              rw [hagain, hmade]
              simp only [writeFault?_grown hg hfault]

omit hdot in
/-- Where the file holds the text, storing it does not fail. -/
theorem store_of_holds (hholds : DirectorySink.holds t l s = true) : (t.store l s).1 = none := by
  obtain ⟨q, hleads⟩ := readText_eq_ok.mp (DirectorySink.readText_of_holds hholds)
  have hlook := look_of_holds h hholds
  have hfound := h.follow_found (ne_nothing_of_file hlook)
  have hshort : (names ++ [n]).any isLongName = false := by
    by_contra hlong
    rw [if_pos (Bool.not_eq_false _ ▸ hlong), hleads.follow] at hfound
    cases hfound
  rw [← List.append_assoc] at hlook
  rw [List.any_append, Bool.or_eq_false_iff, List.any_cons, List.any_nil, Bool.or_false] at hshort
  have hthere : t.look (base ++ names) = .directory :=
    look_above h.last (ne_nothing_of_file hlook)
  obtain ⟨hslash, hdot⟩ := Location.asksForDirectory_eq_false.mp hleads.endsInName
  have hfault : t.writeFault? l (base ++ names) n = none := by
    simp [writeFault?, hleads.allowed, hslash, -List.append_assoc, hlook, hshort.2]
  rw [store_eq h hdot s, makeDirectories_done h.around hthere hshort.1]
  simp only [hfault]

/-- A text that could not be stored is not found at its place later. -/
theorem not_holds_of_failed (hfail : (t.store l s).1 = some e) (hg : Grown P (t.store l s).2 t')
    (hP : refusal? (.ofComponents l.components.dropLast) ≠ none → ¬ P (base ++ names) empty) :
    DirectorySink.holds t' l s = false := by
  have h' : Anchored t' l.components base (names ++ [n]) :=
    (h.grown (store_grown h hdot s)).grown hg
  by_contra hholds
  have hstored := store_of_holds h' (Bool.not_eq_false _ ▸ hholds)
  rw [store_again h hdot hfail hg hP] at hstored
  cases hstored

end

end ObservableStore.FileTree
