import Mathlib.Data.List.Induction
import ObservableStore.GeneratedUnit
import ObservableStore.Proofs.Text.Split

/-!
# `Proofs.Location` — locations written with names

A name is what one component of a location can be. Written behind a location it adds itself to the
components (`components_push_step`), whatever the location is and however it is spelled. So a location
written with names has these names as its components, behind those of the location it is seen from
(`components_join`).
-/

namespace ObservableStore

namespace Location

/-- What one component of a location can be. -/
def IsName (s : String) : Prop :=
  s ≠ "" ∧ '/' ∉ s.toList ∧ s ≠ "." ∧ s ≠ ".."

instance (s : String) : Decidable (IsName s) :=
  inferInstanceAs (Decidable (_ ∧ _))

variable {l m : Location} {n : String} {names : List String}

/-! ## Pieces between slashes -/

/-- A component that can stand behind others: a step up, or what can be a name. -/
def IsStep : Component → Prop
  | .up => True
  | .name n => IsName n
  | _ => False

variable {c : Component} {cs : List Component}

/-- The components that the pieces of a text stand for, whatever it begins with. -/
def pieces (cs : List Char) : List Component :=
  (Text.splitAtChar '/' cs).filterMap Component.ofPiece

theorem slash_not_mem_step (hc : IsStep c) : '/' ∉ c.text.toList := by
  cases c with
  | up => decide
  | name n => exact hc.2.1
  | _ => cases hc

/-- The only piece of a step is a component. -/
theorem ofPiece_step (hc : IsStep c) : Component.ofPiece c.text.toList = some c := by
  cases c with
  | up => rfl
  | name n =>
      obtain ⟨hempty, -, hhere, hup⟩ := hc
      have htoList : ∀ s : String, n ≠ s → n.toList ≠ s.toList := fun s hne heq =>
        hne (String.toList_inj.mp heq)
      have h1 : ¬ (n.toList = [] ∨ n.toList = ['.']) :=
        not_or.mpr ⟨htoList "" hempty, htoList "." hhere⟩
      have h2 : n.toList ≠ ['.', '.'] := htoList ".." hup
      rw [Component.text, Component.ofPiece, if_neg h1, if_neg h2, String.ofList_toList]
  | _ => cases hc

theorem pieces_step (hc : IsStep c) : pieces c.text.toList = [c] := by
  rw [pieces, Text.splitAtChar_of_not_mem (slash_not_mem_step hc), List.filterMap_cons,
    ofPiece_step hc]
  rfl

/-- What follows a slash adds its pieces. -/
theorem componentsOf_append_slash (xs ys : List Char) :
    componentsOf (xs ++ '/' :: ys)
      = componentsOf (xs ++ ['/']) ++ pieces ys := by
  obtain ⟨first, rest, hsplit⟩ := List.exists_cons_of_ne_nil (Text.splitAtChar_ne_nil '/' xs)
  have hhead : (xs ++ '/' :: ys).head? = (xs ++ ['/']).head? := by
    cases xs <;> rfl
  have hlast : [([] : List Char)].filterMap Component.ofPiece = [] := rfl
  rw [componentsOf, componentsOf, Text.splitAtChar_append_sep, Text.splitAtChar_append_sep, hsplit,
    hhead]
  simp only [pieces, List.cons_append, Text.splitAtChar, List.filterMap_append, hlast,
    List.append_nil, List.append_assoc]

/-- A slash at the end does not count. -/
theorem componentsOf_slash {xs : List Char} (h : xs ≠ []) :
    componentsOf (xs ++ ['/']) = componentsOf xs := by
  obtain ⟨first, rest, hsplit⟩ := List.exists_cons_of_ne_nil (Text.splitAtChar_ne_nil '/' xs)
  have hhead : (xs ++ ['/']).head? = xs.head? := by
    rw [List.head?_append_of_ne_nil _ h]
  have hlast : [([] : List Char)].filterMap Component.ofPiece = [] := rfl
  rw [componentsOf, componentsOf, Text.splitAtChar_append_sep, hsplit, hhead]
  simp only [List.cons_append, Text.splitAtChar, List.filterMap_append, hlast, List.append_nil]

/-- A piece that is read as a name can be one, unless it is a dot. -/
theorem isName_of_ofPiece {p : List Char} (hslash : '/' ∉ p)
    (h : Component.ofPiece p = some (.name n)) : IsName n := by
  rw [Component.ofPiece] at h
  split at h
  · cases h
  · next hempty =>
      split at h
      · cases h
      · next hup =>
          obtain rfl := Component.name.inj (Option.some.inj h)
          have hchars : ∀ s : String, p ≠ s.toList → String.ofList p ≠ s := by
            rintro s hne rfl
            exact hne String.toList_ofList.symm
          refine ⟨hchars "" fun heq => hempty (Or.inl heq), ?_,
            hchars "." fun heq => hempty (Or.inr heq), hchars ".." hup⟩
          rwa [String.toList_ofList]

/-- A piece is no component, a step up or a name. -/
theorem ofPiece_cases (p : List Char) : Component.ofPiece p = none ∨
    Component.ofPiece p = some .up ∨ ∃ n, Component.ofPiece p = some (.name n) := by
  rw [Component.ofPiece]
  split
  · exact Or.inl rfl
  · split
    · exact Or.inr (Or.inl rfl)
    · exact Or.inr (Or.inr ⟨_, rfl⟩)

theorem isStep_of_mem_pieces {xs : List Char} (h : c ∈ pieces xs) : IsStep c := by
  obtain ⟨p, hp, hc⟩ := List.mem_filterMap.mp h
  rcases ofPiece_cases p with hnone | hup | ⟨n, hname⟩
  · cases hnone.symm.trans hc
  · obtain rfl := Option.some.inj (hup.symm.trans hc)
    exact trivial
  · obtain rfl := Option.some.inj (hname.symm.trans hc)
    exact isName_of_ofPiece (Text.not_mem_of_mem_splitAtChar hp) hname

/-- A location starts at most with a slash or a dot and goes on with steps. -/
theorem components_lead (l : Location) : ∃ above, l.components = above ++ pieces l.text.toList ∧
    (l.isAbsolute = true ∧ above = [.root] ∨
      l.isAbsolute = false ∧ (above = [] ∨ above = [.here])) := by
  rw [components, componentsOf, isAbsolute, pieces]
  split
  · next hnil => exact absurd hnil (Text.splitAtChar_ne_nil '/' _)
  · next first rest hsplit =>
      rw [hsplit, List.filterMap_cons]
      by_cases hroot : l.text.toList.head? = some '/'
      · obtain ⟨cs, hcs⟩ : ∃ cs, l.text.toList = '/' :: cs := List.head?_eq_some_iff.mp hroot
        rw [hcs, Text.splitAtChar, if_pos rfl] at hsplit
        obtain ⟨rfl, -⟩ := List.cons.inj hsplit
        exact ⟨[.root], by rw [if_pos hroot]; rfl, Or.inl ⟨beq_iff_eq.mpr hroot, rfl⟩⟩
      · have hrelative : (l.text.toList.head? == some '/') = false := beq_eq_false_iff_ne.mpr hroot
        rw [if_neg hroot]
        by_cases hhere : first = ['.']
        · exact ⟨[.here], by rw [if_pos hhere, hhere]; rfl, Or.inr ⟨hrelative, Or.inr rfl⟩⟩
        · refine ⟨[], ?_, Or.inr ⟨hrelative, Or.inl rfl⟩⟩
          rw [if_neg hhere]
          cases Component.ofPiece first <;> rfl

/-- The names among the components of a location can be names of files and directories. -/
theorem isName_of_mem (h : .name n ∈ l.components) : IsName n := by
  obtain ⟨above, heq, habove⟩ := components_lead l
  rcases List.mem_append.mp (heq ▸ h) with h | h
  · rcases habove with ⟨-, rfl⟩ | ⟨-, rfl | rfl⟩ <;> simp at h
  · exact isStep_of_mem_pieces h

/-- Steps are names if no step up is among them. -/
theorem exists_names (hup : .up ∉ cs) (hcs : ∀ c ∈ cs, IsStep c) :
    ∃ names : List String, cs = names.map .name := by
  induction cs with
  | nil => exact ⟨[], rfl⟩
  | cons c rest ih =>
      obtain ⟨names, rfl⟩ := ih (fun hmem => hup (List.mem_cons_of_mem c hmem))
        fun d hd => hcs d (List.mem_cons_of_mem c hd)
      cases c with
      | up => exact absurd List.mem_cons_self hup
      | name n => exact ⟨n :: names, rfl⟩
      | _ => cases hcs _ List.mem_cons_self

/-- A location without a step up starts at most with a slash or a dot and goes on with names. -/
theorem components_plain (h : .up ∉ l.components) : ∃ above, ∃ names : List String,
    l.components = above ++ names.map .name ∧
      (above = [] ∨ above = [.root] ∨ above = [.here]) := by
  obtain ⟨above, heq, habove⟩ := components_lead l
  rw [heq, List.mem_append, not_or] at h
  obtain ⟨names, hnames⟩ := exists_names h.2 fun c => isStep_of_mem_pieces
  refine ⟨above, names, by rw [heq, hnames], ?_⟩
  rcases habove with ⟨-, rfl⟩ | ⟨-, rfl | rfl⟩ <;> simp

/-! ## Writing names behind a location -/

/-- A step does not start at the root. -/
theorem head?_step (hc : IsStep c) : c.text.toList.head? ≠ some '/' := fun h =>
  slash_not_mem_step hc (List.mem_of_mem_head? h)

/-- A name does not start at the root. -/
theorem head?_name (hn : IsName n) : n.toList.head? ≠ some '/' := fun h =>
  hn.2.1 (List.mem_of_mem_head? h)

theorem components_step (hc : IsStep c) : components ⟨c.text⟩ = [c] := by
  have hhere : c.text.toList ≠ ['.'] := by
    intro h
    have hpiece := ofPiece_step hc
    rw [h] at hpiece
    cases hpiece
  rw [components, componentsOf, Text.splitAtChar_of_not_mem (slash_not_mem_step hc)]
  simp only [if_neg (head?_step hc), if_neg hhere, ofPiece_step hc]
  rfl

/-- What is written behind a location adds its pieces. -/
theorem components_push_relative {l : Location} {segment : String} (hl : l.text ≠ "")
    (h : segment.toList.head? ≠ some '/') :
    (l.push segment).components = l.components ++ pieces segment.toList := by
  have hne : l.text.toList ≠ [] := fun h => hl (String.toList_inj.mp h)
  have hsep : l.text.isEmpty = false := by simpa using hl
  rw [push, if_neg h, hsep, Bool.false_or]
  -- the slash between them is the last character of the location or is written first
  by_cases hslash : l.endsInSlash = true
  · obtain ⟨xs, hxs⟩ : ∃ xs, l.text.toList = xs ++ ['/'] :=
      List.getLast?_eq_some_iff.mp (beq_iff_eq.mp hslash)
    rw [if_pos hslash, components, String.toList_append, hxs, List.append_assoc,
      List.singleton_append, componentsOf_append_slash, components, hxs]
  · have htext : (l.text ++ "/" ++ segment).toList = l.text.toList ++ '/' :: segment.toList := by
      simp
    rw [if_neg hslash, components, htext, componentsOf_append_slash, componentsOf_slash hne,
      components]

theorem components_push_step (l : Location) (hc : IsStep c) :
    (l.push c.text).components = l.components ++ [c] := by
  by_cases hempty : l.text = ""
  · have hl : l = ⟨""⟩ := congrArg Location.mk hempty
    have hnone : components ⟨""⟩ = [] := rfl
    rw [hl, push, if_neg (head?_step hc), hnone]
    simpa using components_step hc
  · rw [components_push_relative hempty (head?_step hc), pieces_step hc]

theorem components_foldl_push_steps (l : Location) (h : ∀ c ∈ cs, IsStep c) :
    ((cs.map Component.text).foldl push l).components = l.components ++ cs := by
  induction cs generalizing l with
  | nil => exact (List.append_nil _).symm
  | cons c cs ih =>
      rw [List.map_cons, List.foldl_cons, ih _ fun d hd => h d (List.mem_cons_of_mem c hd),
        components_push_step l (h c List.mem_cons_self), List.append_assoc]
      rfl

theorem components_foldl_push (l : Location) (h : ∀ n ∈ names, IsName n) :
    (names.foldl push l).components = l.components ++ names.map .name := by
  have hsteps := components_foldl_push_steps l
    (List.forall_mem_map.mpr h : ∀ c ∈ names.map Component.name, IsStep c)
  rwa [List.map_map, show Component.text ∘ Component.name = id from rfl, List.map_id] at hsteps

/-- A location written with names has them as its components. -/
theorem components_ofSegments (h : ∀ n ∈ names, IsName n) :
    (ofSegments names).components = names.map .name :=
  components_foldl_push ⟨""⟩ h

/-! ## The last name -/

theorem fileNameOf_concat (cs : List Component) (n : String) :
    fileNameOf (cs ++ [.name n]) = some n := by
  rw [fileNameOf, List.getLast?_concat]

theorem extension_of_components (h : l.components = cs ++ [.name n]) :
    l.extension = extensionOf n := by
  rw [extension, h, fileNameOf_concat, Option.bind_some]

/-- A location written with names has the extension of the last one. -/
theorem extension_foldl_push (l : Location) (h : ∀ m ∈ names ++ [n], IsName m) :
    ((names ++ [n]).foldl push l).extension = extensionOf n := by
  have hcomponents : ((names ++ [n]).foldl push l).components =
      (l.components ++ names.map .name) ++ [.name n] := by
    rw [components_foldl_push l h, List.map_append, List.append_assoc]
    rfl
  exact extension_of_components hcomponents

/-! ## Locations seen from another one -/

/-- What is written between a location and a segment behind it. -/
def between (l : Location) : String :=
  if l.text.isEmpty || l.endsInSlash then "" else "/"

theorem push_relative (l : Location) {segment : String} (h : segment.toList.head? ≠ some '/') :
    l.push segment = ⟨l.text ++ l.between ++ segment⟩ := by
  rw [push, if_neg h, between]
  split
  · rw [String.append_empty]
  · rfl

/-- A location that a name was written behind does not end in a `.`. -/
theorem endsInDot_push (l : Location) (hn : IsName n) : (l.push n).endsInDot = false := by
  obtain ⟨hempty, hslash, hhere, -⟩ := hn
  have hchars : (l.push n).text.toList.reverse =
      n.toList.reverse ++ (l.text ++ l.between).toList.reverse := by
    rw [push_relative l fun h => hslash (List.mem_of_mem_head? h), String.toList_append,
      List.reverse_append]
  rw [endsInDot, hchars]
  -- the last two characters decide, and both are the name's unless it has only one
  cases hn : n.toList.reverse with
  | nil => exact absurd (String.toList_inj.mp (List.reverse_eq_nil_iff.mp hn)) hempty
  | cons c more =>
      have hmem : ∀ d ∈ c :: more, d ≠ '/' := by
        rintro d hd rfl
        exact hslash (List.mem_reverse.mp (hn ▸ hd))
      have hc : (c == '/') = false := beq_eq_false_iff_ne.mpr (hmem c List.mem_cons_self)
      rw [List.cons_append, List.dropWhile_cons, hc, if_neg Bool.false_ne_true]
      cases more with
      | nil =>
          have hdot : ('.' == c) = false := by
            refine beq_eq_false_iff_ne.mpr ?_
            rintro rfl
            exact hhere (String.toList_inj.mp (List.reverse_eq_iff.mp hn))
          rw [List.isPrefixOf, hdot, Bool.false_and]
      | cons d more =>
          have hd : ('/' == d) = false := beq_eq_false_iff_ne.mpr (hmem d (by simp)).symm
          rw [List.cons_append, List.isPrefixOf, List.isPrefixOf, hd, Bool.false_and, Bool.and_false]

theorem between_join (hm : m.text ≠ "") (hrelative : m.text.toList.head? ≠ some '/') :
    (l.join m).between = m.between := by
  have hchars : m.text.toList ≠ [] := fun h => hm (String.toList_inj.mp h)
  have htext : (l.join m).text = l.text ++ l.between ++ m.text := by
    rw [join, push_relative l hrelative]
  have hjoined : (l.join m).text ≠ "" := fun h =>
    hm (String.append_eq_empty_iff.mp (htext ▸ h)).2
  have hempty : (l.join m).text.isEmpty = m.text.isEmpty := by
    rw [Bool.eq_false_iff.mpr (mt String.isEmpty_iff.mp hjoined),
      Bool.eq_false_iff.mpr (mt String.isEmpty_iff.mp hm)]
  have hslash : (l.join m).endsInSlash = m.endsInSlash := by
    rw [endsInSlash, endsInSlash, htext, String.toList_append,
      List.getLast?_append_of_ne_nil _ hchars]
  rw [between, between, hempty, hslash]

/-- A name is written behind a location in the same way wherever that one is seen from. -/
theorem join_push (hm : m.text ≠ "") (hrelative : m.text.toList.head? ≠ some '/') (hn : IsName n) :
    l.join (m.push n) = (l.join m).push n := by
  have hpushed : (m.push n).text.toList.head? ≠ some '/' := by
    have hchars : m.text.toList ≠ [] := fun h => hm (String.toList_inj.mp h)
    rw [push_relative m (head?_name hn), String.append_assoc, String.toList_append,
      List.head?_append_of_ne_nil _ hchars]
    exact hrelative
  rw [push_relative (l.join m) (head?_name hn), between_join hm hrelative, join, join,
    push_relative l hpushed, push_relative l hrelative, push_relative m (head?_name hn)]
  simp only [String.append_assoc]

theorem text_of_components {first : String} {rest : List String}
    (h : m.components = (first :: rest).map .name) :
    m.text ≠ "" ∧ m.text.toList.head? ≠ some '/' := by
  constructor
  · intro hempty
    have hm : m = ⟨""⟩ := congrArg Location.mk hempty
    rw [hm] at h
    cases h
  · intro hroot
    obtain ⟨p, ps, hsplit⟩ := List.exists_cons_of_ne_nil (Text.splitAtChar_ne_nil '/' m.text.toList)
    rw [components, componentsOf, hsplit] at h
    simp [hroot] at h

theorem join_ofSegments (l : Location) (hne : names ≠ []) (h : ∀ n ∈ names, IsName n) :
    l.join (ofSegments names) = names.foldl push l := by
  induction names using List.reverseRecOn with
  | nil => exact absurd rfl hne
  | append_singleton names n ih =>
      have hn := h n (by simp)
      have hnames : ∀ m ∈ names, IsName m := fun m hm => h m (List.mem_append_left _ hm)
      rw [ofSegments, List.foldl_append, List.foldl_append, ← ofSegments]
      cases names with
      | nil =>
          have hfirst : (ofSegments []).push n = ⟨n⟩ := by
            rw [push_relative _ (head?_name hn)]
            exact congrArg Location.mk String.empty_append
          rw [List.foldl_cons, List.foldl_nil, hfirst]
          rfl
      | cons first rest =>
          obtain ⟨htext, hrelative⟩ := text_of_components (components_ofSegments hnames)
          rw [List.foldl_cons, List.foldl_nil, List.foldl_cons, List.foldl_nil,
            join_push htext hrelative hn, ih (List.cons_ne_nil first rest) hnames]

/-- **A location written with names and seen from another one** adds the names to its components. -/
theorem components_join (l : Location) (hne : names ≠ []) (h : ∀ n ∈ names, IsName n) :
    (l.join (ofSegments names)).components = l.components ++ names.map .name := by
  rw [join_ofSegments l hne h, components_foldl_push l h]

end Location

end ObservableStore
