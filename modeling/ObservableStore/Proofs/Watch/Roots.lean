import ObservableStore.Proofs.Location
import ObservableStore.Watch

/-!
# `Proofs.Watch.Roots` — what the spellings of an output root have as components

`.` and `..` are resolved by going through the components of a location without looking at a tree
(`resolve`); there are no links, so a walk that looks whether something is there leads to the same place
(`walk?_eq_some`).

**An output root is spelled in at most three ways** (`components_outputRoots`): as it is given, behind the
working directory with its `..` kept, and resolved, the last one if something is there. All but a
relative spelling resolve to the same place (`Spelling.resolve_eq`).
-/

namespace ObservableStore

open Location (IsName IsStep pieces)

/-! ## Resolving `.` and `..` -/

namespace Location

variable {l m : Location} {cs ds : List Component} {names : List String}

theorem lead_names (names more : List String) :
    (more.map Component.name).foldl lead names = names ++ more := by
  induction more generalizing names with
  | nil => exact (List.append_nil names).symm
  | cons n more ih =>
      rw [List.map_cons, List.foldl_cons, ih, lead, List.append_assoc]
      rfl

theorem resolve_append_names (cs : List Component) (names : List String) :
    resolve (cs ++ names.map .name) = resolve cs ++ names := by
  rw [resolve, List.foldl_append, lead_names]
  rfl

theorem resolve_plain (names : List String) : resolve (.root :: names.map .name) = names := by
  rw [resolve, List.foldl_cons, lead_names]
  rfl

/-- A place is made of names that are written. -/
theorem name_mem_of_mem_resolve {n : String} (h : n ∈ resolve cs) : .name n ∈ cs := by
  induction cs using List.reverseRecOn with
  | nil => cases h
  | append_singleton cs c ih =>
      rw [resolve, List.foldl_append, List.foldl_cons, List.foldl_nil, ← resolve] at h
      refine List.mem_append.mpr ?_
      cases c with
      | root => cases h
      | here => exact Or.inl (ih h)
      | up => exact Or.inl (ih ((List.dropLast_sublist _).subset h))
      | name m =>
          rcases List.mem_append.mp h with h | h
          · exact Or.inl (ih h)
          · obtain rfl := List.mem_singleton.mp h
            exact Or.inr List.mem_cons_self

theorem isName_of_mem_resolved {n : String} (h : n ∈ l.resolved) : IsName n :=
  isName_of_mem (name_mem_of_mem_resolve h)

/-! ## Locations seen from another one -/

theorem components_of_absolute (h : l.isAbsolute = true) :
    l.components = .root :: pieces l.text.toList := by
  obtain ⟨above, heq, ⟨-, rfl⟩ | ⟨hrelative, -⟩⟩ := components_lead l
  · exact heq
  · cases hrelative.symm.trans h

/-- Only a location without text has no components. -/
theorem components_ne_nil (h : l.text ≠ "") : l.components ≠ [] := by
  obtain ⟨c, cs, htext⟩ : ∃ c cs, l.text.toList = c :: cs :=
    List.exists_cons_of_ne_nil fun hnil => h (String.toList_inj.mp hnil)
  by_cases hroot : c = '/'
  · rw [components_of_absolute (by rw [isAbsolute, htext, hroot]; rfl)]
    exact List.cons_ne_nil _ _
  · obtain ⟨first, rest, hsplit⟩ : ∃ first rest, Text.splitAtChar '/' (c :: cs) =
        (c :: first) :: rest := by
      rw [Text.splitAtChar, if_neg hroot]
      cases Text.splitAtChar '/' cs <;> exact ⟨_, _, rfl⟩
    rw [components, componentsOf, htext, hsplit]
    by_cases hhere : c :: first = ['.']
    · simp [hroot, hhere]
    · have hpiece : Component.ofPiece (c :: first) ≠ none := by
        rw [Component.ofPiece, if_neg (by simpa using hhere)]
        split <;> exact Option.some_ne_none _
      simp [hroot, hhere, hpiece]

theorem not_root_of_relative (h : l.isAbsolute = false) : l.components.head? ≠ some .root := by
  obtain ⟨above, heq, ⟨habsolute, -⟩ | ⟨-, rfl | rfl⟩⟩ := components_lead l
  · cases h.symm.trans habsolute
  · intro hroot
    exact isStep_of_mem_pieces (List.mem_of_mem_head? (heq ▸ hroot))
  · rw [heq]
    exact fun hroot => Component.noConfusion (Option.some.inj hroot)

theorem withoutHere_of_relative (h : l.isAbsolute = false) :
    Watch.withoutHere l.components = pieces l.text.toList := by
  obtain ⟨above, heq, ⟨habsolute, -⟩ | ⟨-, rfl | rfl⟩⟩ := components_lead l
  · cases h.symm.trans habsolute
  · rw [heq]
    cases hpieces : pieces l.text.toList with
    | nil => rfl
    | cons c rest =>
        have hc : IsStep c := isStep_of_mem_pieces (hpieces ▸ List.mem_cons_self)
        cases c with
        | here => cases hc
        | _ => rfl
  · rw [heq]
    rfl

/-- **A location behind another one** adds its pieces, unless it is absolute. -/
theorem components_join_relative (hl : l.text ≠ "") (hm : m.isAbsolute = false) :
    (l.join m).components = l.components ++ pieces m.text.toList :=
  components_push_relative hl (by simpa [isAbsolute] using hm)

theorem join_absolute (l : Location) (hm : m.isAbsolute = true) : l.join m = m := by
  rw [join, push, if_pos (by simpa [isAbsolute] using hm)]

theorem components_ofComponents (h : ∀ c ∈ cs, IsStep c) :
    (ofComponents (.root :: cs)).components = .root :: cs :=
  components_foldl_push_steps ⟨"/"⟩ h

end Location

open Location

namespace Watch

variable {w : WorkingDirectory} {l out : Location} {ns : List String}

/-- The working directory is given by its names from the root. -/
def WorkingDirectory.Plain (w : WorkingDirectory) : Prop :=
  ∃ names : List String, w.location.components = .root :: names.map .name

theorem ne_empty_of_root {cs : List Component} (h : l.components = .root :: cs) : l.text ≠ "" := by
  intro hempty
  have hl : l = ⟨""⟩ := congrArg Location.mk hempty
  rw [hl] at h
  cases h

/-- What is seen from the working directory is absolute. -/
theorem head?_join (hw : w.Plain) (l : Location) :
    (w.location.join l).components.head? = some .root := by
  obtain ⟨ns, hlocation⟩ := hw
  by_cases habsolute : l.isAbsolute = true
  · rw [join_absolute _ habsolute, components_of_absolute habsolute]
    rfl
  · rw [components_join_relative (ne_empty_of_root hlocation)
      (Bool.eq_false_iff.mpr habsolute), hlocation]
    rfl

/-! ## Absolute spellings -/

/-- The place of a location behind another one is found from there on. -/
theorem resolved_join (hl : l.text ≠ "") :
    (l.join out).resolved = out.components.foldl lead l.resolved := by
  by_cases habsolute : out.isAbsolute = true
  · rw [join_absolute _ habsolute, resolved, components_of_absolute habsolute]
    rfl
  · rw [resolved, components_join_relative hl (Bool.eq_false_iff.mpr habsolute), resolve,
      List.foldl_append]
    obtain ⟨above, heq, ⟨hfalse, -⟩ | ⟨-, rfl | rfl⟩⟩ := components_lead out
    · exact absurd hfalse habsolute
    · rw [heq]
      rfl
    · rw [heq]
      rfl

/-- A slash at the end does not count. -/
theorem components_finalSlash {cs : List Component} (h : l.components = .root :: cs) :
    (finalSlash out l).components = .root :: cs := by
  rw [finalSlash]
  split
  · rw [components_push_relative (ne_empty_of_root h) (by decide), h]
    exact List.append_nil _
  · exact h

/-- **The absolute spelling** has the components of the location behind the working directory. -/
theorem components_absolute {cs : List Component} (hw : w.location.components = .root :: cs)
    (h : absolute? w out = some l) : l.components = (w.location.join out).components := by
  have hsteps : ∀ c ∈ pieces out.text.toList, IsStep c := fun c => isStep_of_mem_pieces
  rw [absolute?] at h
  by_cases habsolute : out.isAbsolute = true
  · have hcomponents := components_of_absolute habsolute
    -- two slashes at the beginning are kept, but they count as one
    rw [join_absolute _ habsolute, hcomponents]
    rw [if_pos habsolute, hcomponents] at h
    dsimp only at h
    split_ifs at h
    · obtain rfl := Option.some.inj h
      exact components_finalSlash (components_foldl_push_steps ⟨"//"⟩ hsteps)
    · obtain rfl := Option.some.inj h
      exact components_finalSlash (components_ofComponents hsteps)
  · have hrelative := Bool.eq_false_iff.mpr habsolute
    have hbehind := components_join_relative (ne_empty_of_root hw) hrelative
    rw [if_neg habsolute, withoutHere_of_relative hrelative] at h
    split_ifs at h
    obtain rfl := Option.some.inj h
    rw [hbehind, hw]
    refine components_finalSlash ?_
    rw [components_foldl_push_steps w.location hsteps, hw]
    rfl

theorem exists_absolute (w : WorkingDirectory) (hout : out.text ≠ "") :
    ∃ l, absolute? w out = some l := by
  have hsome : out.text.isEmpty = false := by simpa using hout
  rw [absolute?, hsome, if_neg Bool.false_ne_true]
  dsimp only
  split_ifs <;> exact ⟨_, rfl⟩

/-! ## Resolved spellings -/

/-- **A walk leads to the place** that its components lead to without looking. -/
theorem walk?_eq_some {cs : List Component} {place p : List String} (h : w.walk? place cs = some p) :
    p = cs.foldl lead place := by
  induction cs generalizing place with
  | nil => exact (Option.some.inj h).symm
  | cons c cs ih =>
      rw [WorkingDirectory.walk?] at h
      split_ifs at h
      exact ih h

/-- **The resolved spelling** is made of the names of the place. -/
theorem components_canonical {cs : List Component} (hw : w.location.components = .root :: cs)
    (h : canonical? w out = some l) :
    l.components = .root :: (w.location.join out).resolved.map .name := by
  rw [canonical?] at h
  split at h
  · next place hrefusal hwalk =>
      split_ifs at h
      obtain rfl := Option.some.inj h
      rw [walk?_eq_some hwalk, ← resolved_join (ne_empty_of_root hw)]
      exact components_ofComponents (List.forall_mem_map.mpr fun n => isName_of_mem_resolved)
  · cases h

/-! ## All spellings -/

/-- Leaving out neighbours that are the same leaves out no components. -/
theorem components_dedup (ls : List Location) (cs : List Component) :
    (∃ l ∈ dedup ls, l.components = cs) ↔ ∃ l ∈ ls, l.components = cs := by
  induction ls with
  | nil => rfl
  | cons l rest ih =>
      have hcons : (∃ m ∈ l :: rest, m.components = cs) ↔
          l.components = cs ∨ ∃ m ∈ dedup rest, m.components = cs := by
        rw [ih]
        exact List.exists_mem_cons_iff _ l rest
      rw [hcons, dedup]
      cases hrest : dedup rest with
      | nil => exact List.exists_mem_cons_iff _ l []
      | cons m more =>
          dsimp only
          split
          -- the location that is left out has the components of the one that follows
          · next hsame =>
              have heq : l.components = m.components := beq_iff_eq.mp hsame
              simp only [List.exists_mem_cons_iff, heq, or_self_left]
          · exact List.exists_mem_cons_iff _ l (m :: more)

/-- The components of the spellings of an output root: as it is given, behind the working directory
    unless nothing is written, and resolved if something is there. -/
inductive Spelling (w : WorkingDirectory) (out : Location) : List Component → Prop
  | given : Spelling w out out.components
  | absolute (hout : out.text ≠ "") : Spelling w out (w.location.join out).components
  | resolved (hthere : (canonical? w out).isSome = true) :
    Spelling w out (.root :: (w.location.join out).resolved.map .name)

/-- **The output roots are spelled in three ways** at most. -/
theorem components_outputRoots (hw : w.Plain) (out : Location) (cs : List Component) :
    (∃ l ∈ outputRoots w out, l.components = cs) ↔ Spelling w out cs := by
  obtain ⟨names, hlocation⟩ := id hw
  rw [outputRoots, components_dedup, List.exists_mem_cons_iff]
  simp only [List.mem_append, Option.mem_toList, or_and_right, exists_or]
  constructor
  · rintro (rfl | ⟨l, hl, rfl⟩ | ⟨l, hl, rfl⟩)
    · exact .given
    · rw [components_absolute hlocation hl]
      refine .absolute fun hempty => ?_
      rw [absolute?, hempty] at hl
      cases hl
    · rw [components_canonical hlocation hl]
      exact .resolved (Option.isSome_of_mem hl)
  · intro h
    cases h with
    | given => exact Or.inl rfl
    | absolute hout =>
        obtain ⟨l, hl⟩ := exists_absolute w hout
        exact Or.inr (Or.inl ⟨l, hl, components_absolute hlocation hl⟩)
    | resolved hthere =>
        obtain ⟨l, hl⟩ := Option.isSome_iff_exists.mp hthere
        exact Or.inr (Or.inr ⟨l, hl, components_canonical hlocation hl⟩)

namespace Spelling

variable {cs : List Component}

/-- No spelling is empty if something is written. -/
theorem ne_nil (hw : w.Plain) (hout : out.text ≠ "") (h : Spelling w out cs) : cs ≠ [] := by
  cases h with
  | given => exact components_ne_nil hout
  | absolute =>
      intro hnil
      have hroot := head?_join hw out
      rw [hnil] at hroot
      cases hroot
  | resolved => exact List.cons_ne_nil _ _

/-- **All spellings resolve to one place**, but for a relative one. -/
theorem resolve_eq (h : Spelling w out cs) (hroot : cs.head? = some .root) :
    resolve cs = (w.location.join out).resolved := by
  cases h with
  | given =>
      have habsolute : out.isAbsolute = true := by
        by_contra hrelative
        exact not_root_of_relative (Bool.eq_false_iff.mpr hrelative) hroot
      rw [join_absolute _ habsolute]
      rfl
  | absolute => rfl
  | resolved => exact resolve_plain _

end Spelling

end Watch

end ObservableStore
