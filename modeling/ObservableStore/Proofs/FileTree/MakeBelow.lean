import Mathlib.Data.List.Induction
import ObservableStore.Proofs.FileTree.Grown

/-!
# `Proofs.FileTree.MakeBelow` — directories made from the front

Directories are made from the back: the last one is tried first, and those around it only if that
fails for want of them. Where the location begins with a directory that is there and goes on with
names, the outcome is that of a walk from the front (`makeBelow`, `makeDirectories_eq`): it goes
through the directories that are there, makes those that are not, and stops at a file or at a name
that is too long. A walk that is repeated on a tree that has grown since gives the same outcome and
makes nothing (`makeBelow_again`).
-/

namespace ObservableStore.FileTree

open Location (IsName)

variable {P : List String → FileTree → Prop} {t t' : FileTree} {p base : List String} {n : String}
variable {names more : List String} {e : FileFault}

/-- Makes directories by name, one below the other, as far as they are not there. -/
def makeBelow (t : FileTree) (base : List String) : List String → Option FileFault × FileTree
  | [] => (none, t)
  | n :: rest =>
    if isLongName n then (some .nameTooLong, t)
    else match t.look (base ++ [n]) with
      | .directory => t.makeBelow (base ++ [n]) rest
      | .file _ => (some (if rest.isEmpty then .alreadyThere else .notADirectory), t)
      | .nothing => (t.put (base ++ [n]) empty).makeBelow (base ++ [n]) rest

/-! ## One directory more -/

/-- The way to an entry of a directory is open. -/
theorem open_concat (hopen : t.Open base) (hbase : t.look base = .directory) (n : String) :
    t.Open (base ++ [n]) := by
  refine hopen.concat (fun c hc => ?_) n
  rw [look_file.mpr hc] at hbase
  cases hbase

/-- Entries of a kind that a walk adds. -/
def MadeBelow (base names : List String) (p : List String) (new : FileTree) : Prop :=
  new = empty ∧ ∃ front, front ≠ [] ∧ front <+: names ∧ p = base ++ front

theorem MadeBelow.next {rest : List String} {new : FileTree}
    (h : MadeBelow (base ++ [n]) rest p new) : MadeBelow base (n :: rest) p new := by
  obtain ⟨rfl, front, -, hfront, rfl⟩ := h
  refine ⟨rfl, n :: front, List.cons_ne_nil n front, (List.prefix_cons_inj n).mpr hfront, ?_⟩
  rw [List.append_assoc]
  rfl

/-- The first directory that a walk makes. -/
theorem made_first (hopen : t.Open base) (hbase : t.look base = .directory) (hn : Inside n)
    (hshort : isLongName n = false) (hfree : t.look (base ++ [n]) = .nothing) (rest : List String) :
    Adds (MadeBelow base (n :: rest)) t base n empty (t.put (base ++ [n]) empty) where
  opened := hopen
  atDirectory := hbase
  inside := hn
  short := hshort
  isNew := .directory hfree
  allowed := ⟨rfl, [n], List.cons_ne_nil n [], (List.prefix_cons_inj n).mpr List.nil_prefix, rfl⟩
  result := rfl

/-- A directory that was added is seen, and the way to it is open. -/
theorem Adds.made (h : Adds P t base n empty t') :
    t'.look (base ++ [n]) = .directory ∧ t'.Open (base ++ [n]) := by
  refine ⟨?_, ?_⟩
  · rw [h.look, if_pos rfl]
    rfl
  · exact open_concat (h.grown.opened h.atDirectory h.opened) (h.grown.directory h.atDirectory) n

/-- A walk only adds the directories that it makes. -/
theorem makeBelow_grown (hopen : t.Open base) (hbase : t.look base = .directory)
    (hnames : ∀ n ∈ names, Inside n) :
    Grown (MadeBelow base names) t (t.makeBelow base names).2 := by
  induction names generalizing t base with
  | nil => exact .refl
  | cons n rest ih =>
      have hrest : ∀ m ∈ rest, Inside m := fun m hm => hnames m (List.mem_cons_of_mem n hm)
      rw [makeBelow]
      split
      · exact .refl
      · next hshort =>
          split
          · next hnext =>
              exact (ih (open_concat hopen hbase n) hnext hrest).mono fun _ _ => MadeBelow.next
          · exact .refl
          · next hnext =>
              have hadds := made_first hopen hbase (hnames n List.mem_cons_self)
                (Bool.eq_false_iff.mpr hshort) hnext rest
              obtain ⟨hmade, hopen'⟩ := hadds.made
              exact hadds.grown.trans ((ih hopen' hmade hrest).mono fun _ _ => MadeBelow.next)

/-- **A walk that is repeated gives the same outcome and makes nothing.** -/
theorem makeBelow_again (hopen : t.Open base) (hbase : t.look base = .directory)
    (hnames : ∀ n ∈ names, Inside n) (h : Grown P (t.makeBelow base names).2 t') :
    t'.makeBelow base names = ((t.makeBelow base names).1, t') := by
  induction names generalizing t base with
  | nil => rfl
  | cons n rest ih =>
      have hrest : ∀ m ∈ rest, Inside m := fun m hm => hnames m (List.mem_cons_of_mem n hm)
      simp only [makeBelow] at h ⊢
      by_cases hlong : isLongName n = true
      · simp only [hlong, if_true]
      · simp only [hlong, Bool.false_eq_true, if_false] at h ⊢
        cases hnext : t.look (base ++ [n]) with
        | directory =>
            rw [hnext] at h
            have hopen' := open_concat hopen hbase n
            have hstays := h.directory ((makeBelow_grown hopen' hnext hrest).directory hnext)
            simp only [hstays]
            exact ih hopen' hnext hrest h
        | file c =>
            rw [hnext] at h
            obtain ⟨c', hc'⟩ := h.file hnext
            simp only [hc']
        | nothing =>
            rw [hnext] at h
            have hadds := made_first hopen hbase (hnames n List.mem_cons_self)
              (Bool.eq_false_iff.mpr hlong) hnext rest
            obtain ⟨hmade, hopen'⟩ := hadds.made
            have hstays := h.directory ((makeBelow_grown hopen' hmade hrest).directory hmade)
            simp only [hstays]
            exact ih hopen' hmade hrest h

/-! ## Walks and steps -/

/-- A walk in two parts. A file at the end of the first part is in the way of the second one. -/
theorem makeBelow_append (names more : List String) :
    t.makeBelow base (names ++ more) = match t.makeBelow base names with
      | (none, t') => t'.makeBelow (base ++ names) more
      | (some e, t') =>
        (some (if e = .alreadyThere ∧ more.isEmpty = false then .notADirectory else e), t') := by
  induction names generalizing t base with
  | nil => simp [makeBelow]
  | cons n rest ih =>
      simp only [List.cons_append, makeBelow]
      by_cases hlong : isLongName n = true
      · simp [hlong]
      · simp only [hlong, Bool.false_eq_true, if_false, List.append_cons base n rest]
        cases hnext : t.look (base ++ [n]) with
        | directory => exact ih
        | nothing => exact ih
        | file c => cases rest <;> cases more <;> simp

/-- Nothing lies below a directory that was added. -/
theorem Adds.fresh {m : String} (h : Adds P t base n empty t') (hm : Inside m)
    (hfree : t.look (base ++ [n]) = .nothing) : t'.look (base ++ [n] ++ [m]) = .nothing := by
  rw [h.look, if_neg]
  · by_contra hthere
    rw [look_above hm hthere] at hfree
    cases hfree
  · intro heq
    have hlength := congrArg List.length heq
    simp at hlength

/-- Where nothing lies below a directory, only a name that is too long stops a walk. -/
theorem makeBelow_fresh (hopen : t.Open base) (hbase : t.look base = .directory)
    (hnames : ∀ n ∈ names, Inside n) (hfresh : ∀ n, Inside n → t.look (base ++ [n]) = .nothing)
    (h : (t.makeBelow base names).1 = some e) : e = .nameTooLong := by
  induction names generalizing t base with
  | nil => cases h
  | cons n rest ih =>
      have hn := hnames n List.mem_cons_self
      simp only [makeBelow] at h
      by_cases hlong : isLongName n = true
      · simp only [hlong, if_true] at h
        exact (Option.some.inj h).symm
      · simp only [hlong, Bool.false_eq_true, if_false, hfresh n hn] at h
        have hadds := made_first hopen hbase hn (Bool.eq_false_iff.mpr hlong) (hfresh n hn) rest
        obtain ⟨hmade, hopen'⟩ := hadds.made
        exact ih hopen' hmade (fun m hm => hnames m (List.mem_cons_of_mem n hm))
          (fun m hm => hadds.fresh hm (hfresh n hn)) h

/-- A walk that is not stopped ends at a directory. -/
theorem makeBelow_none (hopen : t.Open base) (hbase : t.look base = .directory)
    (hnames : ∀ n ∈ names, Inside n) (h : t.makeBelow base names = (none, t')) :
    t'.look (base ++ names) = .directory ∧ names.any isLongName = false := by
  induction names generalizing t base with
  | nil =>
      obtain rfl := (Prod.mk.inj h).2
      rw [List.append_nil]
      exact ⟨hbase, rfl⟩
  | cons n rest ih =>
      have hrest : ∀ m ∈ rest, Inside m := fun m hm => hnames m (List.mem_cons_of_mem n hm)
      rw [makeBelow] at h
      split at h
      · cases h
      · next hshort =>
          rw [List.any_cons, Bool.eq_false_iff.mpr hshort, Bool.false_or, List.append_cons]
          split at h
          · next hnext => exact ih (open_concat hopen hbase n) hnext hrest h
          · cases h
          · next hnext =>
              have hadds := made_first hopen hbase (hnames n List.mem_cons_self)
                (Bool.eq_false_iff.mpr hshort) hnext rest
              obtain ⟨hmade, hopen'⟩ := hadds.made
              exact ih hopen' hmade hrest h

/-- How far names lead from a directory, and what a walk by these names does. -/
inductive Walk (t : FileTree) (base names : List String) : Prop
  /-- They lead to a directory. -/
  | arrived (follow : t.follow base (names.map .name) = .ok (base ++ names))
      (look : t.look (base ++ names) = .directory) (make : t.makeBelow base names = (none, t))
  /-- They lead to a file. -/
  | blocked {c : Contents} (follow : t.follow base (names.map .name) = .ok (base ++ names))
      (look : t.look (base ++ names) = .file c)
      (make : t.makeBelow base names = (some .alreadyThere, t))
  /-- A file is in the way, or a name is too long. -/
  | stopped {e : FileFault} (follow : t.follow base (names.map .name) = .error e)
      (notMissing : e ≠ .notFound) (notThere : e ≠ .alreadyThere)
      (make : t.makeBelow base names = (some e, t))
  /-- A directory on the way is missing. -/
  | missing (follow : t.follow base (names.map .name) = .error .notFound)
      (make : ∀ e, (t.makeBelow base names).1 = some e → e = .nameTooLong)

theorem walk (hopen : t.Open base) (hbase : t.look base = .directory)
    (hnames : ∀ n ∈ names, Inside n) : Walk t base names := by
  induction names generalizing base with
  | nil => exact .arrived (by rw [List.append_nil]; rfl) (by rw [List.append_nil]; exact hbase) rfl
  | cons n rest ih =>
      have hn := hnames n List.mem_cons_self
      have hrest : ∀ m ∈ rest, Inside m := fun m hm => hnames m (List.mem_cons_of_mem n hm)
      have hstep := step_name hbase hn
      by_cases hlong : isLongName n = true
      · rw [if_pos hlong] at hstep
        refine .stopped (e := .nameTooLong) ?_ (by decide) (by decide) ?_
        · rw [List.map_cons, follow, hstep]
          rfl
        · rw [makeBelow, if_pos hlong]
      · rw [if_neg hlong] at hstep
        cases hnext : t.look (base ++ [n]) with
        | nothing =>
            rw [hnext, if_pos rfl] at hstep
            refine .missing ?_ fun e he => ?_
            · rw [List.map_cons, follow, hstep]
              rfl
            · rw [makeBelow, if_neg hlong] at he
              simp only [hnext] at he
              have hadds := made_first hopen hbase hn (Bool.eq_false_iff.mpr hlong) hnext rest
              obtain ⟨hmade, hopen'⟩ := hadds.made
              exact makeBelow_fresh hopen' hmade hrest (fun m hm => hadds.fresh hm hnext) he
        | file c =>
            rw [hnext, if_neg (fun heq => by cases heq)] at hstep
            cases rest with
            | nil =>
                refine .blocked (c := c) ?_ hnext ?_
                · rw [List.map_cons, follow, hstep]
                  rfl
                · rw [makeBelow, if_neg hlong]
                  simp only [hnext]
                  rfl
            | cons m rest =>
                refine .stopped (e := .notADirectory) ?_ (by decide) (by decide) ?_
                · rw [List.map_cons, follow, hstep, List.map_cons]
                  show t.follow (base ++ [n]) _ = _
                  rw [follow, step_of_file hnext]
                  rfl
                · rw [makeBelow, if_neg hlong]
                  simp only [hnext]
                  rfl
        | directory =>
            rw [hnext, if_neg (fun heq => by cases heq)] at hstep
            have hfollow : t.follow base ((n :: rest).map .name) =
                t.follow (base ++ [n]) (rest.map .name) := by
              rw [List.map_cons, follow, hstep]
              rfl
            have hmake : t.makeBelow base (n :: rest) = t.makeBelow (base ++ [n]) rest := by
              rw [makeBelow, if_neg hlong]
              simp only [hnext]
            rcases ih (open_concat hopen hbase n) hnext hrest with
              ⟨hf, hl, hm⟩ | ⟨hf, hl, hm⟩ | ⟨hf, hne, hne', hm⟩ | ⟨hf, hm⟩
            · rw [← List.append_cons] at hf hl
              exact .arrived (hfollow.trans hf) hl (hmake.trans hm)
            · rw [← List.append_cons] at hf hl
              exact .blocked (hfollow.trans hf) hl (hmake.trans hm)
            · exact .stopped (hfollow.trans hf) hne hne' (hmake.trans hm)
            · exact .missing (hfollow.trans hf) (hmake ▸ hm)

/-! ## Locations that can be tried -/

section

variable {cs : List Component} {c : Component}

theorem ofComponents_concat (cs : List Component) (c : Component) :
    Location.ofComponents (cs ++ [c]) = (Location.ofComponents cs).push c.text := by
  rw [Location.ofComponents, Location.ofComponents, Location.ofSegments, Location.ofSegments,
    List.map_append, List.foldl_append]
  rfl

theorem text_ne_empty (hc : ∀ n, .name n ∈ cs → IsName n) (hne : cs ≠ []) :
    (Location.ofComponents cs).text ≠ "" := by
  obtain ⟨init, c, rfl⟩ := List.eq_nil_or_concat cs |>.resolve_left hne
  have htext : c.text ≠ "" := by
    cases c with
    | name n => exact (hc n (by simp)).1
    | _ => decide
  rw [List.concat_eq_append, ofComponents_concat, Location.push]
  intro heq
  split at heq
  · exact htext heq
  · split at heq <;> exact htext (String.append_eq_empty_iff.mp heq).2

/-- What is around a location that can be tried can be tried as well. -/
theorem refusal?_around (hc : ∀ n, .name n ∈ cs → IsName n) (hne : cs ≠ []) (hn : IsName n)
    (h : refusal? (.ofComponents (cs ++ [.name n])) = none) :
    refusal? (.ofComponents cs) = none := by
  have htext := text_ne_empty hc hne
  rw [ofComponents_concat, Component.text, Location.push_relative _ (Location.head?_name hn)] at h
  unfold refusal? at h ⊢
  rw [if_neg (by simpa using htext)]
  split at h
  · cases h
  · split at h
    · cases h
    · next hnull =>
        split at h
        · cases h
        · next hlength =>
            simp only [String.toList_append, List.contains_eq_mem, decide_eq_true_eq,
              List.mem_append, not_or] at hnull
            simp only [String.utf8ByteSize_append] at hlength
            rw [if_neg (by simpa using hnull.1.1), if_neg (by omega)]

end

/-! ## Making directories -/

section

variable {above : List Component}

theorem makeDirectory_name (hallowed : refusal? (.ofComponents (above ++ [.name n])) = none)
    (hfollow : t.follow [] above = .ok p) (hp : t.look p = .directory) (hn : Inside n) :
    t.makeDirectory (above ++ [.name n]) =
      if isLongName n then .error .nameTooLong
      else if t.look (p ++ [n]) = .nothing then .ok (t.put (p ++ [n]) empty)
      else .error .alreadyThere := by
  obtain ⟨entries, hseen⟩ := look_directory.mp hp
  have hentry : (entries.lookup n).isSome = true ↔ ¬ t.look (p ++ [n]) = .nothing := by
    rw [look_concat hseen hn]
    rcases entries.lookup n with _ | ⟨_ | _⟩ <;> simp [sight]
  rw [makeDirectory, hallowed, List.getLast?_concat, List.dropLast_concat, hfollow]
  simp only [bind, Except.bind, hseen]
  by_cases hnothing : t.look (p ++ [n]) = .nothing
  · simp only [if_pos hnothing, if_neg (mt hentry.mp (not_not_intro hnothing))]
  · simp only [if_neg hnothing, if_pos (hentry.mpr hnothing)]

theorem reachesDirectory_name (hfollow : t.follow [] above = .ok p) (hp : t.look p = .directory)
    (hn : Inside n) : t.reachesDirectory (above ++ [.name n]) =
      (!isLongName n && decide (t.look (p ++ [n]) = .directory)) := by
  have hstep : t.follow [] (above ++ [.name n]) = t.step p (.name n) := by
    rw [follow_append, hfollow]
    show (t.step p (.name n) >>= fun next => t.follow next []) = _
    cases t.step p (.name n) <;> rfl
  rw [reachesDirectory, hstep, step_name hp hn]
  by_cases hlong : isLongName n = true
  · simp [hlong]
  · cases hnext : t.look (p ++ [n]) with
    | nothing => simp [hlong]
    | file c => simp [hlong, seen?_file.mpr (look_file.mp hnext), isDirectory]
    | directory =>
        obtain ⟨entries, hseen⟩ := look_directory.mp hnext
        simp [hlong, hseen, isDirectory]

/-- What becomes of a tree when the last directory is made, where it was not found to be missing. -/
def outcome (t : FileTree) (cs : List Component) (made : Except FileFault FileTree) :
    Option FileFault × FileTree :=
  match made with
  | .ok t' => (none, t')
  | .error e => (if t.reachesDirectory cs then none else some e, t)

/-- To make the last directory is the last step of a walk. -/
theorem makeDirectory_last (hallowed : refusal? (.ofComponents (above ++ [.name n])) = none)
    (hfollow : t.follow [] above = .ok p) (hp : t.look p = .directory) (hn : Inside n) :
    t.makeDirectory (above ++ [.name n]) ≠ .error .notFound ∧
      t.outcome (above ++ [.name n]) (t.makeDirectory (above ++ [.name n])) = t.makeBelow p [n] := by
  have hreaches := reachesDirectory_name hfollow hp hn
  rw [makeDirectory_name hallowed hfollow hp hn, makeBelow]
  by_cases hlong : isLongName n = true
  · simp [hlong, outcome, hreaches]
  · cases hnext : t.look (p ++ [n]) <;> simp [hlong, hnext, outcome, hreaches, makeBelow]

/-- A directory cannot be made where its surroundings cannot be reached. -/
theorem makeDirectory_error (hallowed : refusal? (.ofComponents (above ++ [.name n])) = none)
    (hfollow : t.follow [] above = .error e) :
    t.makeDirectory (above ++ [.name n]) = .error e ∧
      t.outcome (above ++ [.name n]) (.error e) = (some e, t) := by
  have hreaches : t.reachesDirectory (above ++ [.name n]) = false := by
    rw [reachesDirectory, follow_append, hfollow]
    rfl
  refine ⟨?_, ?_⟩
  · rw [makeDirectory, hallowed, List.getLast?_concat, List.dropLast_concat, hfollow]
    rfl
  · rw [outcome, hreaches]
    rfl

/-- A directory cannot be made below a file. -/
theorem makeDirectory_blocked {contents : Contents}
    (hallowed : refusal? (.ofComponents (above ++ [.name n])) = none)
    (hfollow : t.follow [] above = .ok p) (hp : t.look p = .file contents) :
    t.makeDirectory (above ++ [.name n]) = .error .notADirectory ∧
      t.outcome (above ++ [.name n]) (.error .notADirectory) = (some .notADirectory, t) := by
  have hreaches : t.reachesDirectory (above ++ [.name n]) = false := by
    rw [reachesDirectory, follow_append, hfollow]
    simp only [bind, Except.bind, follow, step_of_file hp]
  refine ⟨?_, ?_⟩
  · rw [makeDirectory, hallowed, List.getLast?_concat, List.dropLast_concat, hfollow]
    simp only [bind, Except.bind, seen?_file.mpr (look_file.mp hp)]
  · rw [outcome, hreaches]
    rfl

theorem makeDirectories_found {cs : List Component} {c : Component}
    (h : t.makeDirectory (cs ++ [c]) ≠ .error .notFound) :
    t.makeDirectories (cs ++ [c]).reverse = t.outcome (cs ++ [c]) (t.makeDirectory (cs ++ [c])) := by
  rw [List.reverse_append, List.reverse_singleton, List.singleton_append, makeDirectories]
  simp only [List.reverse_cons, List.reverse_reverse]
  split
  · next heq => rw [heq]; rfl
  · next heq => exact absurd heq h
  · next heq => rw [heq]; rfl

/-- The directories around the last one are made if one of them is missing. -/
theorem makeDirectories_missing {cs : List Component} {c : Component}
    (h : t.makeDirectory (cs ++ [c]) = .error .notFound) :
    t.makeDirectories (cs ++ [c]).reverse = match t.makeDirectories cs.reverse with
      | (some e, t') => (some e, t')
      | (none, t') => t'.outcome (cs ++ [c]) (t'.makeDirectory (cs ++ [c])) := by
  rw [List.reverse_append, List.reverse_singleton, List.singleton_append, makeDirectories]
  simp only [List.reverse_cons, List.reverse_reverse, h]
  cases t.makeDirectories cs.reverse with
  | mk fault t' =>
      cases fault with
      | some e => rfl
      | none => cases hmade : t'.makeDirectory (cs ++ [c]) <;> rfl

/-- A directory that is there need not be made. -/
theorem makeDirectories_there (hfollow : t.follow [] above = .ok p) (hp : t.look p = .directory)
    (hallowed : above ≠ [] → refusal? (.ofComponents above) = none) :
    t.makeDirectories above.reverse = (none, t) := by
  rcases List.eq_nil_or_concat above with rfl | ⟨init, c, rfl⟩
  · rfl
  · rw [List.concat_eq_append] at hfollow hallowed ⊢
    have hreaches : t.reachesDirectory (init ++ [c]) = true := by
      obtain ⟨entries, hseen⟩ := look_directory.mp hp
      rw [reachesDirectory, hfollow]
      simp only [hseen]
      rfl
    have hthere : t.makeDirectory (init ++ [c]) = .error .alreadyThere := by
      rw [makeDirectory, hallowed (by simp), List.getLast?_concat, List.dropLast_concat]
      cases c with
      | name n =>
          rw [follow_append] at hfollow
          obtain ⟨q, hinit, hlast⟩ := bind_eq_ok.mp hfollow
          obtain ⟨next, hstep, hnext⟩ := bind_eq_ok.mp hlast
          obtain ⟨entries, hseen, hleads⟩ := step_eq_ok.mp hstep
          cases hleads with
          | name hlong hfound => simp [hinit, hseen, hlong, hfound, bind, Except.bind]
      | _ => rw [hfollow]; rfl
    rw [List.reverse_append, List.reverse_singleton, List.singleton_append, makeDirectories]
    simp only [List.reverse_cons, List.reverse_reverse, hthere, hreaches, if_true]

/-- **Directories are made as a walk makes them**, where the location begins with a directory that is
    there and goes on with names. -/
theorem makeDirectories_eq (h : Anchored t (above ++ names.map Component.name) base names)
    (hfollow : t.follow [] above = .ok base)
    (hallowed : above ++ names.map Component.name ≠ [] →
      refusal? (.ofComponents (above ++ names.map Component.name)) = none) :
    t.makeDirectories (above ++ names.map Component.name).reverse = t.makeBelow base names := by
  -- the last name is tried first, so the induction is on the names from the last one on
  induction names using List.reverseRecOn with
  | nil =>
      rw [List.map_nil, List.append_nil] at hallowed ⊢
      exact makeDirectories_there hfollow h.atDirectory hallowed
  | append_singleton front n ih =>
      rw [List.map_append, List.map_singleton, ← List.append_assoc] at h hallowed ⊢
      have hn : IsName n := h.isName n (by simp)
      have hnames : ∀ m, .name m ∈ above ++ front.map Component.name → IsName m :=
        fun m hm => h.names m (List.mem_append_left _ hm)
      have hfront : Anchored t (above ++ front.map Component.name) base front :=
        ⟨⟨above, rfl, hfollow⟩, h.atDirectory, hnames⟩
      have hlast := hallowed (by simp)
      have hrest := ih hfront fun hne => refusal?_around hnames hne hn hlast
      rw [makeBelow_append]
      rcases walk hfront.opened hfront.atDirectory hfront.inside with
        ⟨hf, hl, hm⟩ | ⟨hf, hl, hm⟩ | ⟨hf, hne, hne', hm⟩ | ⟨hf, hm⟩
      · obtain ⟨hfound, hmade⟩ :=
          makeDirectory_last hlast (hfront.follow_eq.trans hf) hl (inside_of_isName hn)
        rw [makeDirectories_found hfound, hmade, hm]
      · obtain ⟨hmake, hmade⟩ := makeDirectory_blocked hlast (hfront.follow_eq.trans hf) hl
        rw [makeDirectories_found (by rw [hmake]; exact fun heq => by cases heq), hmake, hmade, hm]
        simp
      · obtain ⟨hmake, hmade⟩ := makeDirectory_error hlast (hfront.follow_eq.trans hf)
        rw [makeDirectories_found (fun heq => hne (Except.error.inj (hmake.symm.trans heq))), hmake,
          hmade, hm]
        simp [hne']
      · obtain ⟨hmake, hmade⟩ := makeDirectory_error hlast (hfront.follow_eq.trans hf)
        rw [makeDirectories_missing hmake, hrest]
        cases hwalk : t.makeBelow base front with
        | mk fault t' =>
            cases fault with
            | some e =>
                obtain rfl := hm e (by rw [hwalk])
                rfl
            | none =>
                -- all directories around it are there now
                have hgrown : Grown (MadeBelow base front) t t' := by
                  have hmade := makeBelow_grown hfront.opened hfront.atDirectory hfront.inside
                  rwa [hwalk] at hmade
                obtain ⟨hthere, hshort⟩ :=
                  makeBelow_none hfront.opened hfront.atDirectory hfront.inside hwalk
                have hreached := (hfront.grown hgrown).follow_found
                  (ne_nothing_of_directory hthere)
                rw [hshort, if_neg Bool.false_ne_true] at hreached
                exact (makeDirectory_last hlast hreached hthere (inside_of_isName hn)).2

end

end ObservableStore.FileTree
