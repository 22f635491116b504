import ObservableStore.Proofs.Text.Split
import ObservableStore.Source.Item

/-!
# `Proofs.Visibility` — who sees a wrapper in a file of its own

A modifier means something only where it stands: `pub(super)` in a module and in a child of it reach
two different modules. This file reads modifiers (`audience?`), says what the modifiers of the
language mean where a root is declared (`Source.Modifier.Reaches`), and compares the modifier that
repeats them in that module with the one for a child of it.

Both reach the same module, whichever way it is spelled, except for one: a path that goes up from
`self`. It is repeated in the child as it is, where it reaches one module less far
(`self_super_narrows`). `child_modifier_reaches` says that this is the only exception.
-/

namespace ObservableStore

/-! ## Reading modifiers -/

/-- Who can see an item. -/
inductive Audience where
  | everyone
  /-- The code in a module of the crate, given by the names that lead to it from the root. -/
  | module (path : List String)
deriving DecidableEq, Repr

namespace Audience

/-- The module that names lead to from a module, where `super` goes one up. -/
def climb? (here : List String) : List String → Option (List String)
  | [] => some here
  | name :: rest =>
    if name = "super" then if here = [] then none else climb? here.dropLast rest
    else some (here ++ name :: rest)

/-- The module that a path stands for in the module `here`. -/
def moduleAt? (here : List String) : List String → Option (List String)
  | [] => none
  | first :: rest =>
    if first = "crate" then some rest
    else if first = "self" then climb? here rest
    else if first = "super" then climb? here (first :: rest)
    else none

/-- What stands in a text between two others. -/
def between? (opening closing text : List Char) : Option (List Char) :=
  if opening.isPrefixOf text && closing.isSuffixOf text then
    some ((text.drop opening.length).take (text.length - (opening.length + closing.length)))
  else none

/-- The path in the parentheses of a modifier. -/
def path? (modifier : String) : Option (List Char) :=
  (between? "pub(in ".toList ") ".toList modifier.toList).or
    (between? "pub(".toList ") ".toList modifier.toList)

end Audience

open Audience in
/-- Who can see an item with a modifier in the module `here`. -/
def audience? (here : List String) (modifier : String) : Option Audience :=
  if modifier = "" then some (.module here)
  else if modifier = "pub " then some .everyone
  else
    (path? modifier).bind fun path =>
      (moduleAt? here ((Text.splitAtPair ':' path).map String.ofList)).map .module

/-- What the modifiers of the language mean for an item of the module `here`: a path in a modifier
    names the module or one around it, from the root of the crate on or going up from the module. -/
inductive Source.Modifier.Reaches (here : List String) : Source.Modifier → Audience → Prop
  | inherited : Reaches here .none (.module here)
  | everywhere : Reaches here .pub .everyone
  | fromRoot {k : Nat} (h : k ≤ here.length) :
    Reaches here (.within ⟨false, "crate" :: here.take k⟩) (.module (here.take k))
  | itself : Reaches here (.within ⟨false, ["self"]⟩) (.module here)
  | up {k : Nat} (h : k < here.length) :
    Reaches here (.within ⟨false, "super" :: List.replicate k "super"⟩)
      (.module (here.take (here.length - (k + 1))))
  | upFromItself {k : Nat} (h : k < here.length) :
    Reaches here (.within ⟨false, "self" :: "super" :: List.replicate k "super"⟩)
      (.module (here.take (here.length - (k + 1))))

/-- A modifier goes up from `self`. -/
def Source.Modifier.ClimbsFromSelf (m : Source.Modifier) : Prop :=
  ∃ rest, m = .within ⟨false, "self" :: "super" :: rest⟩

namespace Audience

/-! ## Paths -/

theorem climb?_super (here : List String) (k : Nat) (h : k ≤ here.length) :
    climb? here (List.replicate k "super") = some (here.take (here.length - k)) := by
  induction k generalizing here with
  | zero => simp [climb?]
  | succ k ih =>
      have hne : here ≠ [] := by
        rintro rfl
        simp at h
      have hlen : here.dropLast.length = here.length - 1 := List.length_dropLast
      rw [List.replicate_succ, climb?, if_pos rfl, if_neg hne, ih here.dropLast (by omega), hlen,
        List.dropLast_eq_take, List.take_take]
      congr 2
      omega

theorem between?_append (opening path closing : List Char) :
    between? opening closing (opening ++ path ++ closing) = some path := by
  have hopening : opening.isPrefixOf (opening ++ path ++ closing) = true :=
    List.isPrefixOf_iff_prefix.mpr (List.append_assoc _ _ _ ▸ List.prefix_append _ _)
  have hclosing : closing.isSuffixOf (opening ++ path ++ closing) = true :=
    List.isSuffixOf_iff_suffix.mpr (List.suffix_append _ _)
  have hlen : (opening ++ path ++ closing).length - (opening.length + closing.length)
      = path.length := by
    simp only [List.length_append]
    omega
  rw [between?, hopening, hclosing, hlen, List.append_assoc, List.drop_left, List.take_left]
  rfl

/-- A modifier with a path behind `in` reaches the module that the path stands for. -/
theorem audience?_within (here : List String) {names : List String} (hne : names ≠ [])
    (hnames : ∀ n ∈ names, ':' ∉ n.toList) :
    audience? here ("pub(in " ++ "::".intercalate names ++ ") ")
      = (moduleAt? here names).map .module := by
  have hpath : path? ("pub(in " ++ "::".intercalate names ++ ") ")
      = some (Text.join [':', ':'] (names.map String.toList)) := by
    have hjoin : ("::".intercalate names).toList = Text.join [':', ':'] (names.map String.toList) :=
      Text.toList_intercalate "::" names
    rw [path?, String.toList_append, String.toList_append, between?_append, Option.some_or, hjoin]
  have hsplit : Text.splitAtPair ':' (Text.join [':', ':'] (names.map String.toList))
      = names.map String.toList := by
    refine Text.splitAtPair_join (by simpa using hne) ?_
    intro p hp
    obtain ⟨n, hn, rfl⟩ := List.mem_map.mp hp
    exact hnames n hn
  have hback : (names.map String.toList).map String.ofList = names := by
    rw [List.map_map]
    exact List.map_id'' (fun n => String.ofList_toList) names
  have hempty : "pub(in " ++ "::".intercalate names ++ ") " ≠ "" := by
    intro h
    simpa using congrArg String.toList h
  have hpub : "pub(in " ++ "::".intercalate names ++ ") " ≠ "pub " := by
    intro h
    simpa using congrArg String.toList h
  rw [audience?, if_neg hempty, if_neg hpub, hpath, Option.bind_some, hsplit, hback]

end Audience

/-! ## The modifiers of a visibility -/

namespace Source.Modifier

/-- A path of several names is kept as it is. -/
theorem visibility_within (a b : String) (rest : List String) :
    (within ⟨false, a :: b :: rest⟩).visibility = .restricted ("::".intercalate (a :: b :: rest)) := by
  have htext : Source.Path.toText ⟨false, a :: b :: rest⟩ = "::".intercalate (a :: b :: rest) := by
    simp [Source.Path.toText]
  have hcolon : ':' ∈ (Source.Path.toText ⟨false, a :: b :: rest⟩).toList := by
    rw [htext, Text.toList_intercalate, List.map_cons, List.map_cons, Text.join]
    simp
  -- none of the words that have a visibility of their own holds a colon
  simp only [visibility]
  split
  · next heq =>
      rw [heq] at hcolon
      exact absurd hcolon (by decide)
  · next heq =>
      rw [heq] at hcolon
      exact absurd hcolon (by decide)
  · next heq =>
      rw [heq] at hcolon
      exact absurd hcolon (by decide)
  · rw [htext]

end Source.Modifier

namespace Visibility

/-- A path that goes up is read one level further down with one more step. -/
theorem childModifier_super (rest : List String) :
    (restricted ("::".intercalate ("super" :: rest))).childModifier
      = "pub(in " ++ "::".intercalate ("super" :: "super" :: rest) ++ ") " := by
  have hself : "::".intercalate ("super" :: rest) ≠ "self" := by
    intro h
    have hlist := congrArg String.toList h
    rw [Text.toList_intercalate] at hlist
    cases rest <;> simp [Text.join] at hlist
  have hprefix : "super".toList.isPrefixOf ("::".intercalate ("super" :: rest)).toList = true := by
    rw [Text.toList_intercalate]
    cases rest <;> simp [Text.join]
  have hopening : "pub(in super::" = "pub(in " ++ "super" ++ "::" := rfl
  rw [childModifier, if_neg hself, if_pos hprefix, String.intercalate_cons_cons, hopening]
  simp only [String.append_assoc]

/-- A path of several names that begins otherwise is read there as it is. -/
theorem childModifier_other {first : String} (hfirst : first = "crate" ∨ first = "self")
    (second : String) (rest : List String) :
    (restricted ("::".intercalate (first :: second :: rest))).childModifier
      = "pub(in " ++ "::".intercalate (first :: second :: rest) ++ ") " := by
  have hself : "::".intercalate (first :: second :: rest) ≠ "self" := by
    intro h
    have hlist := congrArg String.toList h
    rw [Text.toList_intercalate] at hlist
    rcases hfirst with rfl | rfl <;> simp [Text.join] at hlist
  have hprefix : "super".toList.isPrefixOf ("::".intercalate (first :: second :: rest)).toList
      = false := by
    rw [Text.toList_intercalate]
    rcases hfirst with rfl | rfl <;> simp [Text.join, List.isPrefixOf]
  rw [childModifier, if_neg hself, hprefix, if_neg Bool.false_ne_true, inlineModifier]

end Visibility

/-! ## The two modifiers compared -/

theorem colon_not_mem_super (k : Nat) : ∀ n ∈ List.replicate k "super", ':' ∉ n.toList := by
  intro n hn
  rw [List.eq_of_mem_replicate hn]
  decide

/-- A path that goes up leads to a module around the one that it is read in. -/
theorem audience?_up (here : List String) {k : Nat} (h : k < here.length) :
    audience? here ("pub(in " ++ "::".intercalate (List.replicate (k + 1) "super") ++ ") ")
      = some (.module (here.take (here.length - (k + 1)))) := by
  rw [Audience.audience?_within here (by simp) (colon_not_mem_super _), List.replicate_succ,
    Audience.moduleAt?, if_neg (by decide), if_neg (by decide), if_pos rfl, ← List.replicate_succ,
    Audience.climb?_super here _ h]
  rfl

/-- So does one that goes up from `self`. -/
theorem audience?_upFromItself (here : List String) {k : Nat} (h : k < here.length) :
    audience? here ("pub(in " ++ "::".intercalate ("self" :: List.replicate (k + 1) "super") ++ ") ")
      = some (.module (here.take (here.length - (k + 1)))) := by
  have hnames : ∀ n ∈ "self" :: List.replicate (k + 1) "super", ':' ∉ n.toList := by
    intro n hn
    rcases List.mem_cons.mp hn with rfl | hn
    · decide
    · exact colon_not_mem_super _ n hn
  rw [Audience.audience?_within here (by simp) hnames, Audience.moduleAt?, if_neg (by decide),
    if_pos rfl, Audience.climb?_super here _ h]
  rfl

theorem audience?_super {here : List String} (h : 0 < here.length) :
    audience? here "pub(super) " = some (.module (here.take (here.length - 1))) := by
  have hpath : audience? here "pub(super) "
      = (Audience.climb? here (List.replicate 1 "super")).map .module := rfl
  rw [hpath, Audience.climb?_super here 1 h]
  rfl

/-- The module around a child. -/
theorem take_child (here : List String) (child : String) (k : Nat) :
    (here ++ [child]).take ((here ++ [child]).length - (k + 1)) = here.take (here.length - k) := by
  have hlen : (here ++ [child]).length - (k + 1) = here.length - k := by
    rw [List.length_append, List.length_singleton]
    omega
  rw [hlen, List.take_append_of_le_length (Nat.sub_le _ _)]

section Reaching

variable {here : List String} {child : String} {m : Source.Modifier} {a : Audience} {k : Nat}

/-- Around a child `super` is the module itself. -/
theorem audience?_child_super (here : List String) (child : String) :
    audience? (here ++ [child]) "pub(super) " = some (.module here) := by
  rw [audience?_super (by simp), take_child, Nat.sub_zero, List.take_length]

/-- A path from the root means the same in every module. -/
theorem audience?_fromRoot (hhere : ∀ n ∈ here, ':' ∉ n.toList) (reader : List String) (k : Nat) :
    audience? reader ("pub(in " ++ "::".intercalate ("crate" :: here.take k) ++ ") ")
      = some (.module (here.take k)) := by
  have hnames : ∀ n ∈ "crate" :: here.take k, ':' ∉ n.toList := by
    intro n hn
    rcases List.mem_cons.mp hn with rfl | hn
    · decide
    · exact hhere n (List.mem_of_mem_take hn)
  rw [Audience.audience?_within reader (by simp) hnames]
  rfl

/-- The repeated modifier reaches what the language says. -/
theorem inlineModifier_reaches (hhere : ∀ n ∈ here, ':' ∉ n.toList) (h : m.Reaches here a) :
    audience? here m.visibility.inlineModifier = some a := by
  cases h with
  | inherited => rfl
  | everywhere => rfl
  | itself => rfl
  | @fromRoot k hk =>
      have hroot := audience?_fromRoot hhere here k
      cases htake : here.take k with
      | nil => rfl
      | cons first rest =>
          rw [htake] at hroot
          rw [Source.Modifier.visibility_within, Visibility.inlineModifier, hroot]
  | @up k hk =>
      have hup := audience?_up here hk
      cases k with
      | zero => exact audience?_super hk
      | succ k =>
          rw [List.replicate_succ, Source.Modifier.visibility_within, Visibility.inlineModifier]
          exact hup
  | @upFromItself k hk =>
      rw [Source.Modifier.visibility_within, Visibility.inlineModifier]
      exact audience?_upFromItself here hk

/-- So does the modifier for a child, if the path does not go up from `self`. -/
theorem childModifier_reaches (hhere : ∀ n ∈ here, ':' ∉ n.toList) (h : m.Reaches here a)
    (hself : ¬ m.ClimbsFromSelf) :
    audience? (here ++ [child]) m.visibility.childModifier = some a := by
  cases h with
  | inherited => exact audience?_child_super here child
  | everywhere => rfl
  | itself => exact audience?_child_super here child
  | @fromRoot k hk =>
      have hroot := audience?_fromRoot hhere (here ++ [child]) k
      cases htake : here.take k with
      | nil => rfl
      | cons first rest =>
          rw [htake] at hroot
          rw [Source.Modifier.visibility_within, Visibility.childModifier_other (Or.inl rfl), hroot]
  | @up k hk =>
      -- one `super` more, read one level further down
      have hup := audience?_up (here ++ [child]) (k := k + 1)
        (by rw [List.length_append, List.length_singleton]; omega)
      rw [take_child] at hup
      cases k with
      | zero => exact hup
      | succ k =>
          rw [List.replicate_succ, Source.Modifier.visibility_within, Visibility.childModifier_super]
          exact hup
  | @upFromItself k hk => exact absurd ⟨_, rfl⟩ hself

/-- A modifier that goes up from `self` does so any number of times. -/
theorem reaches_of_climbsFromSelf (h : m.Reaches here a) (hself : m.ClimbsFromSelf) :
    ∃ k, k < here.length ∧ m = .within ⟨false, "self" :: List.replicate (k + 1) "super"⟩ ∧
      a = .module (here.take (here.length - (k + 1))) := by
  obtain ⟨rest, hm⟩ := hself
  cases h with
  | inherited => cases hm
  | everywhere => cases hm
  | itself => cases hm
  | fromRoot hk => simp at hm
  | up hk => simp at hm
  | @upFromItself k hk => exact ⟨k, hk, rfl, rfl⟩

/-- A path up from `self` reaches one module less far in a child. -/
theorem childModifier_upFromItself (here : List String) (child : String) (h : k < here.length) :
    audience? (here ++ [child])
        (Source.Modifier.within ⟨false, "self" :: List.replicate (k + 1) "super"⟩).visibility.childModifier
      = some (.module (here.take (here.length - k))) := by
  have hup := audience?_upFromItself (here ++ [child]) (k := k)
    (by rw [List.length_append, List.length_singleton]; omega)
  rw [take_child] at hup
  rw [List.replicate_succ, Source.Modifier.visibility_within,
    Visibility.childModifier_other (Or.inr rfl)]
  exact hup

end Reaching

/-- **The modifier for a child reaches as far as the repeated one**, and that one reaches what the
    language says: for every module whose names hold no colon, every child of it and every modifier
    that an item of the module can have, unless the modifier goes up from `self`. -/
theorem child_modifier_reaches (here : List String) (child : String)
    (hhere : ∀ n ∈ here, ':' ∉ n.toList) (m : Source.Modifier) (a : Audience) (h : m.Reaches here a) :
    audience? here m.visibility.inlineModifier = some a ∧
    (audience? (here ++ [child]) m.visibility.childModifier = some a ↔ ¬ m.ClimbsFromSelf) := by
  refine ⟨inlineModifier_reaches hhere h, fun hchild hself => ?_, childModifier_reaches hhere h⟩
  obtain ⟨k, hk, rfl, rfl⟩ := reaches_of_climbsFromSelf h hself
  have hless := childModifier_upFromItself here child hk
  -- the two modules are at different depths
  have hlen := congrArg List.length (Audience.module.inj (Option.some.inj (hless.symm.trans hchild)))
  rw [List.length_take, List.length_take] at hlen
  omega

/-- Two levels up from a module two levels deep: both modifiers reach the crate. -/
theorem child_modifier_reaches_two_up :
    let m := Source.Modifier.within ⟨false, ["super", "super"]⟩
    (∀ n ∈ ["ui", "state"], ':' ∉ n.toList) ∧ m.Reaches ["ui", "state"] (.module []) ∧
    audience? ["ui", "state", "page"] m.visibility.childModifier = some (.module []) := by
  intro m
  have hhere : ∀ n ∈ ["ui", "state"], ':' ∉ n.toList := by decide
  have hreaches : m.Reaches ["ui", "state"] (.module []) := .up (k := 1) (by decide)
  refine ⟨hhere, hreaches, ?_⟩
  refine (child_modifier_reaches ["ui", "state"] "page" hhere m _ hreaches).2.mpr ?_
  rintro ⟨rest, hm⟩
  simp [m] at hm

/-- **A path up from `self` reaches less far in a child.** In the module `a::b` the modifier
    `pub(in self::super)` reaches `a`; the one for a child of `a::b` is the same text, and there it
    reaches `a::b`. -/
theorem self_super_narrows :
    let m := Source.Modifier.within ⟨false, ["self", "super"]⟩
    m.Reaches ["a", "b"] (.module ["a"]) ∧
    audience? ["a", "b"] m.visibility.inlineModifier = some (.module ["a"]) ∧
    audience? ["a", "b", "c"] m.visibility.childModifier = some (.module ["a", "b"]) := by
  intro m
  exact ⟨.upFromItself (k := 0) (by decide), by decide, by decide⟩

end ObservableStore
