import ObservableStore.Proofs.FileTree.Places
import ObservableStore.Proofs.FileTree.StoreAgain

/-!
# `Proofs.FileTree.Alike` — trees that look alike

Two trees are `Alike` at some positions when the same is seen there. What a store does to a tree is
decided by what is seen on the way to the file, so on trees that look alike there it does the same
(`store_alike`): it fails for the same reason or not at all, and the trees still look alike.
-/

namespace ObservableStore.FileTree

variable {S : List String → Prop} {t t' : FileTree} {l : Location} {s : String}
variable {base names : List String} {n : String} {cs : List Component}

/-- The same is seen at some positions of two trees. -/
def Alike (S : List String → Prop) (t t' : FileTree) : Prop :=
  ∀ q, S q → t'.look q = t.look q

/-- The same entry may be added to trees that look alike. -/
theorem Alike.put {new : FileTree} (h : Alike S t t') (hopen : t.Open base) (hopen' : t'.Open base)
    (hbase : t.look base = .directory) (hbase' : t'.look base = .directory)
    (hS : S (base ++ [n])) (hfree : t.look (base ++ [n]) ≠ .directory)
    (hnew : ∀ name, new.entry? name = none) :
    Alike S (t.put (base ++ [n]) new) (t'.put (base ++ [n]) new) := by
  intro q hq
  have hfree' : t'.look (base ++ [n]) ≠ .directory := h _ hS ▸ hfree
  rw [look_put hopen hbase hfree hnew, look_put hopen' hbase' hfree' hnew, h q hq]

/-- A walk does the same to trees that look alike on its way. -/
theorem makeBelow_alike (h : Alike S t t') (hopen : t.Open base) (hopen' : t'.Open base)
    (hbase : t.look base = .directory) (hbase' : t'.look base = .directory)
    (hnames : ∀ n ∈ names, Inside n) (hS : ∀ front, front <+: names → S (base ++ front)) :
    (t'.makeBelow base names).1 = (t.makeBelow base names).1 ∧
      Alike S (t.makeBelow base names).2 (t'.makeBelow base names).2 := by
  induction names generalizing t t' base with
  | nil => exact ⟨rfl, h⟩
  | cons n rest ih =>
      have hn := hnames n List.mem_cons_self
      have hrest : ∀ m ∈ rest, Inside m := fun m hm => hnames m (List.mem_cons_of_mem n hm)
      have hnextS : S (base ++ [n]) := hS [n] ((List.prefix_cons_inj n).mpr List.nil_prefix)
      have hrestS : ∀ front, front <+: rest → S (base ++ [n] ++ front) := by
        intro front hfront
        rw [List.append_assoc]
        exact hS (n :: front) ((List.prefix_cons_inj n).mpr hfront)
      have hsame := h _ hnextS
      rw [makeBelow, makeBelow]
      by_cases hlong : isLongName n = true
      · rw [if_pos hlong, if_pos hlong]
        exact ⟨rfl, h⟩
      · rw [if_neg hlong, if_neg hlong]
        cases hnext : t.look (base ++ [n]) with
        | file c =>
            rw [hnext] at hsame
            simp only [hsame]
            exact ⟨trivial, h⟩
        | directory =>
            rw [hnext] at hsame
            simp only [hsame]
            exact ih h (open_concat hopen hbase n) (open_concat hopen' hbase' n) hnext hsame hrest
              hrestS
        | nothing =>
            rw [hnext] at hsame
            simp only [hsame]
            have hmade := (made_first hopen hbase hn (Bool.eq_false_iff.mpr hlong) hnext rest).made
            have hmade' :=
              (made_first hopen' hbase' hn (Bool.eq_false_iff.mpr hlong) hsame rest).made
            have hfree := ne_directory_of_nothing hnext
            have hput : Alike S (t.put (base ++ [n]) empty) (t'.put (base ++ [n]) empty) :=
              h.put hopen hopen' hbase hbase' hnextS hfree fun _ => rfl
            exact ih hput hmade.2 hmade'.2 hmade.1 hmade'.1 hrest hrestS

theorem makeDirectories_alike (h : Alike S t t') (ht : Anchored t cs base names)
    (ht' : Anchored t' cs base names) (hS : ∀ front, front <+: names → S (base ++ front)) :
    (t'.makeDirectories cs.reverse).1 = (t.makeDirectories cs.reverse).1 ∧
      Alike S (t.makeDirectories cs.reverse).2 (t'.makeDirectories cs.reverse).2 := by
  by_cases hne : cs = []
  · subst hne
    exact ⟨rfl, h⟩
  · cases hallowed : refusal? (.ofComponents cs) with
    | some e =>
        have hreaches : t'.reachesDirectory cs = t.reachesDirectory cs := by
          rw [Bool.eq_iff_iff, ht'.reaches_iff, ht.reaches_iff, h _ (hS names (List.prefix_refl _))]
        rw [makeDirectories_refused ht.names hne hallowed,
          makeDirectories_refused ht'.names hne hallowed, hreaches]
        exact ⟨rfl, h⟩
    | none =>
        obtain ⟨above, rfl, hfollow⟩ := ht.follow
        obtain ⟨above', heq, hfollow'⟩ := ht'.follow
        obtain rfl := List.append_cancel_right heq
        rw [makeDirectories_eq ht hfollow fun _ => hallowed,
          makeDirectories_eq ht' hfollow' fun _ => hallowed]
        exact makeBelow_alike h ht.opened ht'.opened ht.atDirectory ht'.atDirectory ht.inside hS

/-- **A text is stored in the same way in trees that look alike** on the way to its place. -/
theorem store_alike (h : Alike S t t') (ht : Anchored t l.components base (names ++ [n]))
    (ht' : Anchored t' l.components base (names ++ [n])) (hdot : l.endsInDot = false)
    (hS : ∀ front, front <+: names ++ [n] → S (base ++ front)) (s : String) :
    (t'.store l s).1 = (t.store l s).1 ∧ Alike S (t.store l s).2 (t'.store l s).2 := by
  have hplace : S (base ++ names ++ [n]) := by
    rw [List.append_assoc]
    exact hS _ (List.prefix_refl _)
  obtain ⟨hfault, halike⟩ := makeDirectories_alike h ht.around ht'.around
    fun front hfront => hS front (hfront.trans (List.prefix_append names [n]))
  have hgrown := makeDirectories_grown ht.around
  have hgrown' := makeDirectories_grown ht'.around
  rw [store_eq ht hdot s, store_eq ht' hdot s]
  cases hmade : t.makeDirectories l.components.dropLast.reverse with
  | mk fault t₁ =>
      cases hmade' : t'.makeDirectories l.components.dropLast.reverse with
      | mk fault' t₁' =>
          rw [hmade, hmade'] at hfault halike
          rw [hmade] at hgrown
          rw [hmade'] at hgrown'
          obtain rfl : fault' = fault := hfault
          cases fault' with
          | some e => exact ⟨rfl, halike⟩
          | none =>
              have hwrite : t₁'.writeFault? l (base ++ names) n =
                  t₁.writeFault? l (base ++ names) n := by
                rw [writeFault?, writeFault?, halike _ hplace]
              simp only [hwrite]
              cases hnone : t₁.writeFault? l (base ++ names) n with
              | some e => exact ⟨rfl, halike⟩
              | none =>
                  obtain ⟨hthere, hshort⟩ := makeDirectories_none ht.around hmade
                  obtain ⟨hthere', -⟩ := makeDirectories_none ht'.around hmade'
                  have hopen := ((ht.around.grown hgrown).opened_at hthere hshort).2
                  have hopen' := ((ht'.around.grown hgrown').opened_at hthere' hshort).2
                  exact ⟨rfl, halike.put hopen hopen' hthere hthere' hplace
                    (writeFault?_none hnone).1 fun _ => rfl⟩

/-- A file holds a text in one tree just if it does in the other. -/
theorem holds_alike (ht : Anchored t l.components base names)
    (ht' : Anchored t' l.components base names)
    (hsame : t'.look (base ++ names) = t.look (base ++ names)) :
    DirectorySink.holds t' l s = DirectorySink.holds t l s := by
  by_cases hfile : ∃ c, t.look (base ++ names) = .file c
  · obtain ⟨c, hfile⟩ := hfile
    rw [DirectorySink.holds, DirectorySink.holds, readText_congr ht ht' hfile hsame]
  · -- a text is held by a file only
    have hnot : DirectorySink.holds t l s = false := by
      by_contra hholds
      exact hfile ⟨_, look_of_holds ht (Bool.not_eq_false _ ▸ hholds)⟩
    have hnot' : DirectorySink.holds t' l s = false := by
      by_contra hholds
      exact hfile ⟨_, hsame ▸ look_of_holds ht' (Bool.not_eq_false _ ▸ hholds)⟩
    rw [hnot, hnot']

end ObservableStore.FileTree
