import ObservableStore.Proofs.FileTree.Keeps
import ObservableStore.Proofs.Location

/-!
# `Proofs.FileTree.Look` — a tree by what is seen at its positions

Where a location leads is decided by what is seen on the way: nothing, a file, or a directory
(`look`). The entries of a directory are seen one level further in (`look_concat`), so names lead to
whatever is seen at their end unless one of them is too long (`follow_found`). Putting a new entry into a directory changes what is
seen at one position and nowhere else (`look_put`).
-/

namespace ObservableStore.FileTree

variable {t t' u : FileTree} {p q base : List String} {n : String} {names : List String}
variable {entries : List (String × FileTree)} {contents : Contents}

/-! ## Sights -/

/-- What is seen at a position, whatever entries a directory has. -/
inductive Sight where
  | nothing
  | file (c : Contents)
  | directory
deriving DecidableEq

/-- The sight of a tree that may be there. -/
def sight : Option FileTree → Sight
  | none => .nothing
  | some (.file c) => .file c
  | some (.directory _) => .directory

/-- What is seen at a position of a tree. -/
def look (t : FileTree) (p : List String) : Sight := sight (t.seen? p)

theorem look_directory : t.look p = .directory ↔
    ∃ entries, t.seen? p = some (.directory entries) := by
  unfold look
  rcases t.seen? p with _ | ⟨_ | _⟩ <;> simp [sight]

theorem look_nothing : t.look p = .nothing ↔ t.seen? p = none := by
  unfold look
  rcases t.seen? p with _ | ⟨_ | _⟩ <;> simp [sight]

theorem look_file : t.look p = .file contents ↔ t.find? p = some (.file contents) := by
  rw [← seen?_file, look]
  rcases t.seen? p with _ | ⟨_ | _⟩ <;> simp [sight]

theorem ne_nothing_of_directory (h : t.look p = .directory) : t.look p ≠ .nothing := by
  intro hnone
  rw [h] at hnone
  cases hnone

theorem ne_nothing_of_file (h : t.look p = .file contents) : t.look p ≠ .nothing := by
  intro hnone
  rw [h] at hnone
  cases hnone

theorem ne_directory_of_file (h : t.look p = .file contents) : t.look p ≠ .directory := by
  intro hdirectory
  rw [h] at hdirectory
  cases hdirectory

theorem ne_directory_of_nothing (h : t.look p = .nothing) : t.look p ≠ .directory := by
  intro hdirectory
  rw [h] at hdirectory
  cases hdirectory

/-- Whether no file is on the way is seen. -/
theorem open_iff : t.Open p ↔ ∀ q, q <+: p → q ≠ p → ∀ c, t.look q ≠ .file c := by
  simp only [Open, ne_eq, look_file]

/-! ## Names of entries -/

/-- A name that leads to nothing around the tree. -/
def Inside (n : String) : Prop := n ≠ around ∧ n ≠ outermost

theorem inside_of_isName (h : Location.IsName n) : Inside n := by
  refine ⟨h.2.2.2, ?_⟩
  rintro rfl
  exact h.2.1 (by decide)

/-- Names inside lead away from the directories on the way out. -/
theorem isOutward_inside (hn : Inside n) (p rest : List String) :
    isOutward (p ++ n :: rest) = false := by
  rw [isOutward, List.all_append, Bool.or_eq_false_iff]
  refine ⟨by simp [hn.1], beq_eq_false_iff_ne.mpr fun heq => ?_⟩
  rcases List.append_eq_singleton_iff.mp heq with ⟨-, hrest⟩ | ⟨-, hrest⟩
  · exact hn.2 (List.cons.inj hrest).1
  · cases hrest

theorem seen?_inside (hn : Inside n) (p rest : List String) :
    t.seen? (p ++ n :: rest) = t.find? (p ++ n :: rest) := by
  rw [seen?]
  cases t.find? (p ++ n :: rest) with
  | some u => rfl
  | none => simp [isOutward_inside hn]

/-- Whether a position is another one or leads further in from there. -/
def Below (p q : List String) : Prop := ∃ names, (∀ n ∈ names, Inside n) ∧ q = p ++ names

theorem Below.refl (p : List String) : Below p p :=
  ⟨[], fun _ hn => absurd hn List.not_mem_nil, (List.append_nil p).symm⟩

theorem Below.trans {r : List String} (h : Below p q) (h' : Below q r) : Below p r := by
  obtain ⟨names, hnames, rfl⟩ := h
  obtain ⟨more, hmore, rfl⟩ := h'
  exact ⟨names ++ more, List.forall_mem_append.mpr ⟨hnames, hmore⟩, List.append_assoc _ _ _⟩

/-- Of two positions from which names lead to the same one, one is below the other. -/
theorem Below.comparable {r : List String} (h : Below p r) (h' : Below q r) :
    Below p q ∨ Below q p := by
  obtain ⟨names, hnames, rfl⟩ := h
  obtain ⟨more, hmore, heq⟩ := h'
  rcases List.append_eq_append_iff.mp heq with ⟨mid, rfl, rfl⟩ | ⟨mid, rfl, rfl⟩
  · exact Or.inl ⟨mid, (List.forall_mem_append.mp hnames).1, rfl⟩
  · exact Or.inr ⟨mid, (List.forall_mem_append.mp hmore).1, rfl⟩

/-- The entries of a directory are seen below it. -/
theorem look_concat (h : t.seen? p = some (.directory entries)) (hn : Inside n) :
    t.look (p ++ [n]) = sight (entries.lookup n) := by
  rw [look, seen?_inside hn, find?_of_seen? h]

/-- Above whatever is seen there are directories. -/
theorem look_above {rest : List String} (hn : Inside n) (h : t.look (p ++ n :: rest) ≠ .nothing) :
    t.look p = .directory := by
  have hseen : t.find? (p ++ n :: rest) ≠ none := by
    intro hnone
    exact h (look_nothing.mpr ((seen?_inside hn p rest).trans hnone))
  rw [find?_append] at hseen
  cases hp : t.find? p with
  | none => exact absurd (by rw [hp]; rfl) hseen
  | some u =>
      cases u with
      | file c => exact absurd (by rw [hp]; rfl) hseen
      | directory entries => exact look_directory.mpr ⟨entries, seen?_of_find? hp⟩

/-! ## Steps -/

theorem step_of_file (h : t.look p = .file contents) (c : Component) :
    t.step p c = .error .notADirectory := by
  rw [step, seen?_file.mpr (look_file.mp h)]

theorem step_of_nothing (h : t.look p = .nothing) (c : Component) :
    t.step p c = .error .notFound := by
  rw [step, look_nothing.mp h]

/-- A step by name from a directory. -/
theorem step_name (h : t.look p = .directory) (hn : Inside n) :
    t.step p (.name n) =
      if isLongName n then .error .nameTooLong
      else if t.look (p ++ [n]) = .nothing then .error .notFound else .ok (p ++ [n]) := by
  obtain ⟨entries, hseen⟩ := look_directory.mp h
  have hentry : (entries.lookup n).isSome = true ↔ ¬ t.look (p ++ [n]) = .nothing := by
    rw [look_concat hseen hn]
    rcases entries.lookup n with _ | ⟨_ | _⟩ <;> simp [sight]
  rw [step, hseen]
  by_cases hnothing : t.look (p ++ [n]) = .nothing
  · simp only [if_pos hnothing, if_neg (mt hentry.mp (not_not_intro hnothing))]
  · simp only [if_neg hnothing, if_pos (hentry.mpr hnothing)]

theorem step_congr (hn : Inside n) (hp : t.look p = t'.look p)
    (hnext : t.look (p ++ [n]) = t'.look (p ++ [n])) : t.step p (.name n) = t'.step p (.name n) := by
  cases h : t.look p with
  | nothing => rw [step_of_nothing h, step_of_nothing (hp ▸ h)]
  | file c => rw [step_of_file h, step_of_file (hp ▸ h)]
  | directory => rw [step_name h hn, step_name (hp ▸ h) hn, hnext]

/-- Names lead to what is seen at their end, unless one of them is too long. -/
theorem follow_found (hnames : ∀ n ∈ names, Inside n) (h : t.look (p ++ names) ≠ .nothing) :
    t.follow p (names.map .name) =
      if names.any isLongName then .error .nameTooLong else .ok (p ++ names) := by
  induction names generalizing p with
  | nil => simp [follow]
  | cons n rest ih =>
      have hn := hnames n List.mem_cons_self
      have hnext : ¬ t.look (p ++ [n]) = .nothing := by
        cases rest with
        | nil => exact h
        | cons m rest =>
            have hm := hnames m (List.mem_cons_of_mem n List.mem_cons_self)
            rw [List.append_cons] at h
            exact ne_nothing_of_directory (look_above hm h)
      have hbase : t.look p = .directory := look_above hn h
      rw [List.append_cons] at h
      rw [List.map_cons, follow, step_name hbase hn]
      by_cases hlong : isLongName n = true
      · simp [hlong, bind, Except.bind]
      · rw [if_neg hlong, if_neg hnext, List.any_cons, Bool.eq_false_iff.mpr hlong, Bool.false_or,
          List.append_cons p n rest]
        exact ih (fun m hm => hnames m (List.mem_cons_of_mem n hm)) h

/-! ## New entries -/

/-- What is there only after something was put is on the way to it. -/
theorem prefix_of_put {new : FileTree} (hnew : ∀ name, new.entry? name = none)
    (hq : t.find? q = none) (hput : (t.put p new).find? q ≠ none) : q <+: p := by
  induction p generalizing t q with
  | nil =>
      cases q with
      | nil => cases hq
      | cons name q =>
          rw [put, find?, hnew name] at hput
          exact absurd rfl hput
  | cons name rest ih =>
      cases t with
      | file c => exact absurd hq hput
      | directory entries =>
          cases q with
          | nil => exact List.nil_prefix
          | cons other q =>
              by_cases hother : other = name
              · subst hother
                rw [find?_put_same_entry] at hput
                refine (List.prefix_cons_inj other).mpr ?_
                cases q with
                | nil => exact List.nil_prefix
                | cons n q =>
                    refine ih ?_ hput
                    have hentry : (entries.lookup other).bind (fun child => child.find? (n :: q))
                        = none := hq
                    cases hchild : entries.lookup other with
                    | none => rfl
                    | some child =>
                        rw [hchild] at hentry
                        exact hentry
              · rw [find?_put_other_entry new hother] at hput
                exact absurd hq hput

/-- Only directories on the way out are above one on the way out. -/
theorem isOutward_above (hp : isOutward p = true) (h : q <+: p) : isOutward q = true := by
  obtain ⟨rest, rfl⟩ := h
  rw [isOutward, Bool.or_eq_true, List.all_append, Bool.and_eq_true] at hp
  rcases hp with ⟨hall, -⟩ | hroot
  · rw [isOutward, hall, Bool.true_or]
  · rcases List.append_eq_singleton_iff.mp (beq_iff_eq.mp hroot) with ⟨rfl, -⟩ | ⟨rfl, -⟩
    · rfl
    · rfl

/-- Whatever lies above a directory that is seen is seen. -/
theorem seen_above (h : t.look p = .directory) (hq : q <+: p) : t.look q ≠ .nothing := by
  obtain ⟨entries, hseen⟩ := look_directory.mp h
  obtain ⟨rest, rfl⟩ := hq
  rw [ne_eq, look_nothing, seen?]
  rcases seen?_eq_some.mp hseen with hfind | ⟨-, hout, -⟩
  · rw [find?_append] at hfind
    cases hq : t.find? q with
    | none => rw [hq] at hfind; cases hfind
    | some u => exact fun heq => by cases heq
  · rw [isOutward_above hout (List.prefix_append q rest)]
    cases t.find? q <;> exact fun heq => by cases heq

/-- **A new entry is seen at its position and nowhere else.** What is put has no entries of its own,
    and it replaces no directory. -/
theorem look_put {new : FileTree} (hopen : t.Open base) (hbase : t.look base = .directory)
    (hfree : t.look (base ++ [n]) ≠ .directory) (hnew : ∀ name, new.entry? name = none)
    (q : List String) :
    (t.put (base ++ [n]) new).look q =
      if q = base ++ [n] then sight (some new) else t.look q := by
  have hnofile : ∀ c, t.find? base ≠ some (.file c) := by
    intro c hc
    rw [look_file.mpr hc] at hbase
    cases hbase
  have hnodirectory : ∀ entries, t.find? (base ++ [n]) ≠ some (.directory entries) :=
    fun entries hp => hfree (look_directory.mpr ⟨entries, seen?_of_find? hp⟩)
  by_cases hq : q = base ++ [n]
  · rw [if_pos hq, hq, look, seen?_of_find? (find?_put_self new (hopen.concat hnofile n))]
  · rw [if_neg hq]
    cases hfind : t.find? q with
    | some u =>
        obtain ⟨u', hu', hstays⟩ := find?_put_other new hnodirectory hq hfind
        rw [look, look, seen?_of_find? hu', seen?_of_find? hfind]
        cases u with
        | file c => rw [hstays.file]
        | directory entries =>
            obtain ⟨entries', rfl⟩ := hstays.directory
            rfl
    | none =>
        cases hput : (t.put (base ++ [n]) new).find? q with
        | none => rw [look, look, seen?, seen?, hput, hfind]
        | some u =>
            -- it is on the way to the new entry, so it could be seen before on the way out only
            have habove : q <+: base := by
              have hthere : (t.put (base ++ [n]) new).find? q ≠ none := by
                rw [hput]
                exact Option.some_ne_none u
              have hprefix := prefix_of_put hnew hfind hthere
              rcases List.prefix_concat_iff.mp hprefix with rfl | hprefix
              · exact absurd rfl hq
              · exact hprefix
            have hseen := seen_above hbase habove
            rw [ne_eq, look_nothing, seen?, hfind] at hseen
            have hout : isOutward q = true := by
              by_contra hout
              exact hseen (if_neg hout)
            cases u with
            | file c => exact absurd hput (find?_put_nothing hnew hq hfind c)
            | directory entries =>
                rw [look, look, seen?_of_find? hput, seen?, hfind]
                simp only [hout, if_true]
                rfl

end ObservableStore.FileTree
