import ObservableStore.Discovery
import ObservableStore.Proofs.Location
import ObservableStore.Proofs.Namespace.Spellings

/-!
# `Proofs.Namespace` — the namespaces of files read back

A namespace reads back from its text if its segments have no colons and no blanks around them
(`Namespace.parse_toText`). The namespace of a source file is made of the components below the root,
but of the last one only what stands in front of the extension: that, too, must have no blanks around
it (`parse_moduleNamespace`).
-/

namespace ObservableStore

namespace Location

/-- A file whose path below a root is made of segments, and so is its name without the extension. -/
structure PlainBelow (root file : Location) : Prop where
  components : ∀ c ∈ below root file,
    ':' ∉ c.text.toList ∧ Text.trim c.text.toList = c.text.toList
  name : ∃ name, fileNameOf (below root file) = some name ∧
    Text.trim (stemOf name).toList = (stemOf name).toList

theorem mem_of_mem_below {root file : Location} {c : Component} (h : c ∈ below root file) :
    c ∈ file.components := by
  unfold below at h
  split at h
  · exact List.mem_of_mem_drop h
  · exact h

/-- A component is not empty. -/
theorem text_ne_empty {l : Location} {c : Component} (h : c ∈ l.components) : c.text ≠ "" := by
  cases c with
  | name s => exact (isName_of_mem h).1
  | _ => decide

theorem name_of_fileNameOf {cs : List Component} {name : String} (h : fileNameOf cs = some name) :
    .name name ∈ cs := by
  unfold fileNameOf at h
  split at h
  · next s hlast =>
      obtain rfl := Option.some.inj h
      exact List.mem_of_getLast? hlast
  · cases h

/-- What stands in front of the last dot of a name is a part of it, and not empty unless the name
    is. -/
theorem stemOf_part {name : String} (hne : name ≠ "") :
    stemOf name ≠ "" ∧ ∀ c ∈ (stemOf name).toList, c ∈ name.toList := by
  have hname : name.toList ≠ [] := by simpa using hne
  have hwhole : String.ofList name.toList ≠ "" ∧ ∀ c ∈ (String.ofList name.toList).toList,
      c ∈ name.toList := by
    rw [String.ofList_toList]
    exact ⟨hne, fun _ hc => hc⟩
  unfold stemOf splitName
  dsimp only
  split
  · exact hwhole
  · exact hwhole
  · next first stem hmany hdrop =>
      have hstem : stem ≠ [] := fun hnil => hmany (hnil ▸ rfl)
      refine ⟨by simpa using hstem, fun c hc => ?_⟩
      rw [String.toList_ofList, List.mem_reverse] at hc
      have hmem : c ∈ name.toList.reverse.dropWhile (· ≠ '.') := hdrop ▸ List.mem_cons_of_mem first hc
      exact List.mem_reverse.mp ((List.dropWhile_sublist _).subset hmem)

end Location

open Location

section

variable {root file : Location}

/-- The namespaces of the directories of a file, from a namespace on. -/
theorem foldl_child (ns : Namespace) (cs : List Component) :
    cs.foldl (fun ns c => ns.child c.text) ns =
      ⟨ns.segments ++ cs.map Component.text, ns.asWritten⟩ := by
  induction cs generalizing ns with
  | nil => simp
  | cons c rest ih => simp [ih]

/-- The namespace of a file holds `crate`, components below the root, and the name of the file without
    its extension. -/
theorem moduleNamespace_cases (root file : Location) : ∃ segments,
    moduleNamespace root file = .ofSegments ("crate" :: segments) ∧
      ∀ s ∈ segments, (∃ c ∈ below root file, s = c.text) ∨
        s = ((fileNameOf (below root file)).map stemOf).getD "" := by
  have hparent : ∀ s ∈ (below root file).dropLast.map Component.text,
      ∃ c ∈ below root file, s = c.text := by
    intro s hs
    obtain ⟨c, hc, rfl⟩ := List.mem_map.mp hs
    exact ⟨c, (List.dropLast_sublist _).subset hc, rfl⟩
  unfold moduleNamespace
  simp only [foldl_child]
  split
  · exact ⟨_, rfl, fun s hs => Or.inl (hparent s hs)⟩
  · split
    · exact ⟨_, rfl, fun s hs => Or.inl (hparent s hs)⟩
    · refine ⟨_ ++ [_], rfl, fun s hs => ?_⟩
      rcases List.mem_append.mp hs with hs | hs
      · exact Or.inl (hparent s hs)
      · exact Or.inr (List.mem_singleton.mp hs)

/-- **The namespace of a file reads back from its text.** -/
theorem parse_moduleNamespace (h : PlainBelow root file) :
    Namespace.parse (moduleNamespace root file).toText = moduleNamespace root file := by
  obtain ⟨segments, hsegments, hparts⟩ := moduleNamespace_cases root file
  obtain ⟨name, hname, htrimmed⟩ := h.name
  have hcomponent : ∀ c ∈ below root file, IsSegment c.text := fun c hc =>
    ⟨text_ne_empty (mem_of_mem_below hc), (h.components c hc).1, (h.components c hc).2⟩
  have hmem : .name name ∈ below root file := name_of_fileNameOf hname
  obtain ⟨hstem, hchars⟩ := stemOf_part (isName_of_mem (mem_of_mem_below hmem)).1
  have hall : ∀ s ∈ "crate" :: segments, IsSegment s := by
    refine List.forall_mem_cons.mpr ⟨isSegment_crate, fun s hs => ?_⟩
    rcases hparts s hs with ⟨c, hc, rfl⟩ | rfl
    · exact hcomponent c hc
    · rw [hname]
      exact ⟨hstem, fun hcolon => (hcomponent _ hmem).colon (hchars _ hcolon), htrimmed⟩
  rw [hsegments]
  exact Namespace.parse_toText rfl (List.cons_ne_nil _ _) hall

end

end ObservableStore
