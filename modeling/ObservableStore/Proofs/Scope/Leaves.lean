import ObservableStore.Proofs.Scope.Steps

/-!
# `Proofs.Scope.Leaves` — a tree of imports is the list of its leaves

The tree of an import branches at groups, and each of its leaves imports one thing. Written out with
the names that lead to it, a leaf is an import of its own (`UseTree.leaves`). The tree takes the steps
of these imports one after the other (`useSteps_leaves`), so it can be taken apart wherever it stands,
and so can all trees of a module at once (`ofItems_separated`). A leaf `self` stands for the path that
leads to it, and can be written as that path (`useSteps_shortened`).

The names above a branch can be kept on one stack for the whole tree (`walkUse`). A branch takes off
the stack what it has put there, and that is why the branches beside it see what it saw
(`walkUse_eq`).
-/

namespace ObservableStore

namespace Source

namespace UseTree

/-! ## Imports of one thing -/

/-- The tree with names in front of all that it imports. -/
def behind (names : List String) (tree : UseTree) : UseTree := names.foldr .path tree

/-- Whether a tree has no branches: names, and one leaf behind them. -/
def isSingle : UseTree → Bool
  | .path _ tree => tree.isSingle
  | .name _ => true
  | .rename _ _ => true
  | .glob => true
  | .group _ => false

theorem isSingle_behind (names : List String) (tree : UseTree) :
    (behind names tree).isSingle = tree.isSingle := by
  induction names with
  | nil => rfl
  | cons n rest ih => exact ih

mutual

/-- The leaves of a tree below a path, from left to right, each as the import of its full path. -/
def leaves (above : List String) : UseTree → List UseTree
  | .path n tree => leaves (above ++ [n]) tree
  | .name n => [behind above (.name n)]
  | .rename n given => [behind above (.rename n given)]
  | .glob => [behind above .glob]
  | .group trees => leavesAll above trees

/-- The leaves of trees below a path. -/
def leavesAll (above : List String) : List UseTree → List UseTree
  | [] => []
  | tree :: rest => leaves above tree ++ leavesAll above rest

end

mutual

theorem isSingle_of_mem_leaves {above : List String} {leaf : UseTree} :
    (tree : UseTree) → leaf ∈ leaves above tree → leaf.isSingle = true
  | .path n tree, h => by
      rw [leaves] at h
      exact isSingle_of_mem_leaves tree h
  | .name n, h => by
      rw [leaves, List.mem_singleton] at h
      rw [h, isSingle_behind, isSingle]
  | .rename n given, h => by
      rw [leaves, List.mem_singleton] at h
      rw [h, isSingle_behind, isSingle]
  | .glob, h => by
      rw [leaves, List.mem_singleton] at h
      rw [h, isSingle_behind, isSingle]
  | .group trees, h => by
      rw [leaves] at h
      exact isSingle_of_mem_leavesAll trees h

theorem isSingle_of_mem_leavesAll {above : List String} {leaf : UseTree} :
    (trees : List UseTree) → leaf ∈ leavesAll above trees → leaf.isSingle = true
  | [], h => by
      rw [leavesAll] at h
      cases h
  | tree :: rest, h => by
      rw [leavesAll] at h
      rcases List.mem_append.mp h with h | h
      · exact isSingle_of_mem_leaves tree h
      · exact isSingle_of_mem_leavesAll rest h

end

/-! ## Leaves that stand for their path -/

/-- A leaf `self` written as the path that leads to it. Where that path ends in `self`, too, there is
    no such way to write it. -/
def shortened : UseTree → UseTree
  | .path last (.name n) =>
    if n = "self" ∧ last ≠ "self" then .name last else .path last (.name n)
  | .path last (.rename n given) =>
    if n = "self" ∧ last ≠ "self" then .rename last given else .path last (.rename n given)
  | .path n tree => .path n tree.shortened
  | tree => tree

end UseTree

namespace Item

/-- An item, its imports written out one by one. -/
def separated : Item → List Item
  | .use rooted tree => (tree.leaves []).map (.use rooted)
  | item => [item]

/-- An item with its leaf `self`, if it is an import with such a leaf, written as a path. -/
def shortened : Item → Item
  | .use rooted tree => .use rooted tree.shortened
  | item => item

end Item

end Source

namespace Scope

open Source (UseTree Item)

/-! ## Steps of leaves -/

/-- Names in front of a tree are names above it. -/
theorem useSteps_behind (above names : List String) (tree : UseTree) :
    useSteps above (.behind names tree) = useSteps (above ++ names) tree := by
  induction names generalizing above with
  | nil => rw [List.append_nil]; rfl
  | cons name rest ih =>
      rw [List.append_cons, ← ih (above ++ [name])]
      show useSteps above (.path name (.behind rest tree)) = _
      rw [useSteps]

mutual

/-- **The steps of a tree are those of its leaves**, from left to right. -/
theorem useSteps_leaves (above : List String) :
    (tree : UseTree) → (tree.leaves above).flatMap (useSteps []) = useSteps above tree
  | .path name tree => by
      rw [UseTree.leaves, useSteps]
      exact useSteps_leaves (above ++ [name]) tree
  | .name name => by
      rw [UseTree.leaves, List.flatMap_singleton, useSteps_behind, List.nil_append]
  | .rename name given => by
      rw [UseTree.leaves, List.flatMap_singleton, useSteps_behind, List.nil_append]
  | .glob => by
      rw [UseTree.leaves, List.flatMap_singleton, useSteps_behind, List.nil_append]
  | .group trees => by
      rw [UseTree.leaves, useSteps]
      exact useStepsAll_leaves above trees

theorem useStepsAll_leaves (above : List String) :
    (trees : List UseTree) →
      (UseTree.leavesAll above trees).flatMap (useSteps []) = useStepsAll above trees
  | [] => by
      rw [UseTree.leavesAll, useStepsAll]
      rfl
  | tree :: rest => by
      rw [UseTree.leavesAll, useStepsAll, List.flatMap_append, useSteps_leaves above tree,
        useStepsAll_leaves above rest]

end

/-- A leaf `self` takes the step of the path that leads to it. -/
theorem useSteps_shortened (above : List String) (tree : UseTree) :
    useSteps above tree.shortened = useSteps above tree := by
  fun_induction UseTree.shortened tree generalizing above with
  | case1 last name h =>
      obtain ⟨rfl, hlast⟩ := h
      simp [useSteps, hlast]
  | case2 => rfl
  | case3 last name given h =>
      obtain ⟨rfl, hlast⟩ := h
      simp [useSteps, hlast]
  | case4 => rfl
  | case5 name tree _ _ ih => rw [useSteps, useSteps, ih]
  | case6 => rfl

/-! ## Scopes of leaves -/

/-- Leaves are added one by one, whether or not each is written as short as it can be. -/
theorem foldl_leaves (s : Scope) (above : List String) (rooted : Bool) (tree : UseTree) :
    (tree.leaves above).foldl (fun s leaf => s.addItem (.use rooted leaf)) s = s.addUse above tree ∧
    (tree.leaves above).foldl (fun s leaf => s.addItem (.use rooted leaf.shortened)) s
      = s.addUse above tree := by
  have hleaf (s : Scope) (leaf : UseTree) :
      s.addItem (.use rooted leaf) = s.run (useSteps [] leaf) := addUse_eq_run s [] leaf
  have hshort (s : Scope) (leaf : UseTree) :
      s.addItem (.use rooted leaf.shortened) = s.run (useSteps [] leaf) := by
    rw [hleaf, useSteps_shortened]
  rw [addUse_eq_run, ← useSteps_leaves above tree]
  exact ⟨foldl_eq_run hleaf s _, foldl_eq_run hshort s _⟩

theorem rootSteps_separated (item : Item) : item.separated.flatMap rootSteps = rootSteps item := by
  cases item with
  | use rooted tree =>
      refine List.flatMap_eq_nil_iff.mpr fun leaf hleaf => ?_
      obtain ⟨tree', -, rfl⟩ := List.mem_map.mp hleaf
      rfl
  | _ => exact List.flatMap_singleton rootSteps _

theorem itemSteps_separated (item : Item) : item.separated.flatMap itemSteps = itemSteps item := by
  cases item with
  | use rooted tree =>
      rw [Item.separated, List.flatMap_map]
      exact useSteps_leaves [] tree
  | _ => exact List.flatMap_singleton itemSteps _

/-- **A module sees the same** with the imports of all its items written out one by one. -/
theorem ofItems_separated (home : Namespace) (items : List Item) :
    ofItems home (items.flatMap Item.separated) = ofItems home items := by
  simp only [ofItems_eq_run, List.flatMap_assoc, rootSteps_separated, itemSteps_separated]

theorem ofItems_shortened (home : Namespace) (items : List Item) :
    ofItems home (items.map Item.shortened) = ofItems home items := by
  have hroot (item : Item) : rootSteps item.shortened = rootSteps item := by
    cases item <;> rfl
  have hitem (item : Item) : itemSteps item.shortened = itemSteps item := by
    cases item with
    | use rooted tree => exact useSteps_shortened [] tree
    | _ => rfl
  simp only [ofItems_eq_run, List.flatMap_map, hroot, hitem]

/-! ## One stack for a tree -/

mutual

/-- Adds the imports of a tree with one stack of names for all of it. A name is put on the stack for
    what stands behind it and taken off again. -/
def walkUse (state : Scope × List String) : UseTree → Scope × List String
  | .path name tree =>
    let (s, stack) := walkUse (state.1, state.2 ++ [name]) tree
    (s, stack.dropLast)
  | .name name => (state.1.addUse state.2 (.name name), state.2)
  | .rename name given => (state.1.addUse state.2 (.rename name given), state.2)
  | .glob => (state.1.addUse state.2 .glob, state.2)
  | .group trees => walkUses state trees

/-- Adds the imports of trees, from left to right. Each tree gets the stack that the one before it
    has left. -/
def walkUses (state : Scope × List String) : List UseTree → Scope × List String
  | [] => state
  | tree :: rest => walkUses (walkUse state tree) rest

end

mutual

/-- **A walk leaves the stack as it was** and adds what the tree adds. -/
theorem walkUse_eq (s : Scope) (above : List String) :
    (tree : UseTree) → walkUse (s, above) tree = (s.addUse above tree, above)
  | .path name tree => by
      rw [walkUse, walkUse_eq s (above ++ [name]) tree, addUse]
      show (_, (above ++ [name]).dropLast) = _
      rw [List.dropLast_concat]
  | .name name => by rw [walkUse]
  | .rename name given => by rw [walkUse]
  | .glob => by rw [walkUse]
  | .group trees => by
      rw [walkUse, addUse]
      exact walkUses_eq s above trees

theorem walkUses_eq (s : Scope) (above : List String) :
    (trees : List UseTree) → walkUses (s, above) trees = (s.addUses above trees, above)
  | [] => by rw [walkUses, addUses]
  | tree :: rest => by
      rw [walkUses, walkUse_eq s above tree, addUses]
      exact walkUses_eq (s.addUse above tree) above rest

end

/-! ## Groups -/

/-- **Groups of imports flatten.** A walk over a tree, below any path and in any scope, gives back the
    stack it was given. What it adds is what the leaves of the tree add, each as an import of its own
    that is written out with its full path, from left to right; a leaf `self` may be written as the
    path that leads to it. So all imports of a module can be written out one by one: no path is
    resolved in another way. -/
theorem use_groups_flatten (s : Scope) (above : List String) (rooted : Bool) (tree : UseTree) :
    (∀ leaf ∈ tree.leaves above, leaf.isSingle = true) ∧
    walkUse (s, above) tree = (s.addUse above tree, above) ∧
    s.addUse above tree
      = (tree.leaves above).foldl (fun s leaf => s.addItem (.use rooted leaf)) s ∧
    s.addUse above tree
      = (tree.leaves above).foldl (fun s leaf => s.addItem (.use rooted leaf.shortened)) s ∧
    ∀ (home : Namespace) (items : List Item) (p : Source.Path),
      (ofItems home (items.flatMap Item.separated)).resolve p = (ofItems home items).resolve p ∧
      (ofItems home ((items.flatMap Item.separated).map Item.shortened)).resolve p
        = (ofItems home items).resolve p := by
  obtain ⟨hleaves, hshort⟩ := foldl_leaves s above rooted tree
  refine ⟨fun leaf hleaf => UseTree.isSingle_of_mem_leaves tree hleaf, walkUse_eq s above tree,
    hleaves.symm, hshort.symm, fun home items p => ⟨?_, ?_⟩⟩
  · rw [ofItems_separated]
  · rw [ofItems_shortened, ofItems_separated]

/-- `use std::{fmt::{self, Error as Failure}, io::*};` has three leaves. -/
example :
    (UseTree.path "std" (.group [.path "fmt" (.group [.name "self", .rename "Error" "Failure"]),
        .path "io" .glob])).leaves []
      = [.path "std" (.path "fmt" (.name "self")), .path "std" (.path "fmt" (.rename "Error" "Failure")),
        .path "std" (.path "io" .glob)] := rfl

end Scope

end ObservableStore
