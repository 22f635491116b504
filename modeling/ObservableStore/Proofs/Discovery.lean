import ObservableStore.Discovery
import ObservableStore.Proofs.Scope.Alias

/-!
# `Proofs.Discovery` — the roots of a file are its marked declarations

A declaration in a file has a place: the index of an item, after the indices of the inline modules that
lead to it. What lies at a place is a site (`siteAt?`): the names of the modules on the way, the items of
the innermost one, and the declaration. Places are in the order of the source.

**The roots of a file** are the sites whose declaration is marked, in order and each once
(`SourceFile.roots_eq_marked`). A root sees the outline of its own module and nothing else: neither the
items of the modules around it nor those of the modules beside it.

Shape of the argument. `sitesOfItems` goes the way of `rootsOfItems` and keeps the places. That its list
is in order, that it holds the marked sites and that the roots are made of it are three inductions over
an item and the items of a module at once, where a module is seen from its `n`th item on.
-/

namespace ObservableStore

namespace Source

/-! ## Sites -/

/-- A declaration in a file, with the names of the modules around it and the items of the innermost
    one. -/
structure Site where
  modules : List String
  around : List Item
  declaration : Declaration

namespace Site

/-- A site one module further in. -/
def inside (name : String) (s : Site) : Site :=
  { s with modules := name :: s.modules }

/-- An attribute of the declaration is a path that ends in the marker. -/
def Marked (marker : String) (s : Site) : Prop :=
  ∃ a ∈ s.declaration.attributes, a.path.names.getLast? = some marker

end Site

/-- The declaration at a place: the last index counts the items of its module, the others lead there
    through modules that are written in place. -/
def siteAt? (items : List Item) : List Nat → Option Site
  | [] => none
  | i :: place =>
    match items[i]? with
    | some (.declaration d) => if place = [] then some ⟨[], items, d⟩ else none
    | some (.module name (some inner)) => (siteAt? inner place).map (Site.inside name)
    | _ => none

/-- An item without the items of a module. -/
def Item.outline : Item → Item
  | .module name _ => .module name none
  | item => item

/-- A site without what modules declare, except for its own. -/
def Site.outline (s : Site) : Site :=
  { s with around := s.around.map Item.outline }

section

variable {items : List Item} {i : Nat} {place : List Nat}

theorem siteAt?_declaration {d : Declaration} (h : items[i]? = some (.declaration d)) :
    siteAt? items (i :: place) = if place = [] then some ⟨[], items, d⟩ else none := by
  rw [siteAt?, h]

theorem siteAt?_module {name : String} {inner : List Item}
    (h : items[i]? = some (.module name (some inner))) :
    siteAt? items (i :: place) = (siteAt? inner place).map (Site.inside name) := by
  rw [siteAt?, h]

/-- A site has a place in some item. -/
theorem index_of_siteAt? {s : Site} (h : siteAt? items place = some s) :
    ∃ j below, 0 ≤ j ∧ place = j :: below := by
  cases place with
  | nil => cases h
  | cons j below => exact ⟨j, below, Nat.zero_le j, rfl⟩

end

end Source

namespace Scope

/-- A scope is made of the outline of the module's items. -/
theorem ofItems_outline (home : Namespace) (items : List Source.Item) :
    ofItems home (items.map Source.Item.outline) = ofItems home items := by
  have hroot (s : Scope) (item : Source.Item) : s.addRoot item.outline = s.addRoot item := by
    cases item <;> rfl
  have hitem (s : Scope) (item : Source.Item) : s.addItem item.outline = s.addItem item := by
    cases item <;> rfl
  simp only [ofItems, List.foldl_map, hroot, hitem]

end Scope

open Source

/-! ## Sites in the order of the roots -/

mutual

/-- The marked sites of an item, with their places below it. -/
def sitesOfItem (marker : String) (around : List Item) : Item → List (List Nat × Site)
  | .declaration d => if isMarked marker d.attributes then [([], ⟨[], around, d⟩)] else []
  | .module name (some items) =>
    (sitesOfItems marker items 0 items).map fun x => (x.1, x.2.inside name)
  | _ => []

/-- The marked sites of the items of a module from the `n`th one on, with their places. -/
def sitesOfItems (marker : String) (around : List Item) (n : Nat) :
    List Item → List (List Nat × Site)
  | [] => []
  | item :: rest =>
    (sitesOfItem marker around item).map (fun x => (n :: x.1, x.2))
      ++ sitesOfItems marker around (n + 1) rest

end

section

variable {marker : String}

/-! ## Their order -/

/-- A later item has later places. -/
theorem le_of_mem_sitesOfItems {around : List Item} {x : List Nat × Site} {rest : List Item} {n : Nat}
    (h : x ∈ sitesOfItems marker around n rest) : ∃ i place, n ≤ i ∧ x.1 = i :: place := by
  induction rest generalizing n with
  | nil => cases h
  | cons item rest ih =>
      rcases List.mem_append.mp h with h | h
      · obtain ⟨y, -, rfl⟩ := List.mem_map.mp h
        exact ⟨n, y.1, Nat.le_refl n, rfl⟩
      · obtain ⟨i, place, hle, hx⟩ := ih h
        exact ⟨i, place, Nat.le_of_succ_le hle, hx⟩

mutual

theorem ascending_sitesOfItem (marker : String) (around : List Item) :
    (item : Item) → (sitesOfItem marker around item).Pairwise (fun x y => x.1 < y.1)
  | .declaration d => by
      rw [sitesOfItem]
      split
      · exact List.pairwise_singleton _ _
      · exact .nil
  | .module name (some items) => by
      rw [sitesOfItem, List.pairwise_map]
      exact ascending_sitesOfItems marker items 0 items
  | .module _ none | .externCrate _ _ | .use _ _ | .typeAlias _ | .trait _ | .other => .nil

/-- **Sites come in the order of the source**, each once. -/
theorem ascending_sitesOfItems (marker : String) (around : List Item) (n : Nat) :
    (rest : List Item) → (sitesOfItems marker around n rest).Pairwise (fun x y => x.1 < y.1)
  | [] => .nil
  | item :: rest => by
      refine List.pairwise_append.mpr ⟨?_, ascending_sitesOfItems marker around (n + 1) rest, ?_⟩
      · rw [List.pairwise_map]
        exact (ascending_sitesOfItem marker around item).imp fun h => List.cons_lt_cons_iff.mpr
          (Or.inr ⟨rfl, h⟩)
      · intro x hx y hy
        obtain ⟨x', -, rfl⟩ := List.mem_map.mp hx
        obtain ⟨i, place, hle, hy⟩ := le_of_mem_sitesOfItems hy
        rw [hy]
        exact List.cons_lt_cons_iff.mpr (Or.inl hle)

end

/-! ## What they are -/

mutual

theorem mem_sitesOfItem : (item : Item) → {items : List Item} → {i : Nat} → {place : List Nat} →
    {s : Site} → items[i]? = some item →
    ((place, s) ∈ sitesOfItem marker items item ↔
      siteAt? items (i :: place) = some s ∧ s.Marked marker)
  | .declaration d, items, i, place, s, h => by
      have hmarked : isMarked marker d.attributes = true ↔
          ∃ a ∈ d.attributes, a.path.names.getLast? = some marker := by
        simp only [isMarked, List.any_eq_true, beq_iff_eq]
      rw [sitesOfItem, siteAt?_declaration h]
      constructor
      · intro hmem
        split at hmem
        · next hd =>
            obtain ⟨rfl, rfl⟩ := Prod.mk.inj (List.mem_singleton.mp hmem)
            exact ⟨rfl, hmarked.mp hd⟩
        · cases hmem
      · rintro ⟨hsite, hs⟩
        split at hsite
        · next hplace =>
            obtain rfl := Option.some.inj hsite
            rw [if_pos (hmarked.mpr hs), hplace]
            exact List.mem_singleton_self _
        · cases hsite
  | .module name (some inner), items, i, place, s, h => by
      -- inside the module places are counted from its own first item on
      have hinner {s' : Site} : (place, s') ∈ sitesOfItems marker inner 0 inner ↔
          (∃ j below, 0 ≤ j ∧ place = j :: below) ∧ siteAt? inner place = some s' ∧ s'.Marked marker :=
        mem_sitesOfItems inner fun j => by rw [Nat.zero_add]
      rw [sitesOfItem, siteAt?_module h]
      constructor
      · intro hmem
        obtain ⟨⟨place', s'⟩, hs', heq⟩ := List.mem_map.mp hmem
        obtain ⟨rfl, rfl⟩ := Prod.mk.inj heq
        obtain ⟨-, hsite, hs⟩ := hinner.mp hs'
        exact ⟨congrArg (Option.map (Site.inside name)) hsite, hs⟩
      · rintro ⟨hsite, hs⟩
        obtain ⟨s', hs', rfl⟩ := Option.map_eq_some_iff.mp hsite
        exact List.mem_map.mpr ⟨(place, s'), hinner.mpr ⟨index_of_siteAt? hs', hs', hs⟩, rfl⟩
  | .module _ none, items, i, place, s, h | .externCrate _ _, items, i, place, s, h
  | .use _ _, items, i, place, s, h | .typeAlias _, items, i, place, s, h
  | .trait _, items, i, place, s, h | .other, items, i, place, s, h => by
      have hsite : siteAt? items (i :: place) = none := by rw [siteAt?, h]
      rw [hsite]
      exact iff_of_false List.not_mem_nil fun hsome => nomatch hsome.1

/-- **The sites of a module from its `n`th item on** are the marked ones at the places from there on. -/
theorem mem_sitesOfItems : (rest : List Item) → {items : List Item} → {n : Nat} →
    {place : List Nat} → {s : Site} → (∀ j, items[n + j]? = rest[j]?) →
    ((place, s) ∈ sitesOfItems marker items n rest ↔
      (∃ i below, n ≤ i ∧ place = i :: below) ∧ siteAt? items place = some s ∧ s.Marked marker)
  | [], items, n, place, s, h => by
      refine iff_of_false List.not_mem_nil ?_
      rintro ⟨⟨i, below, hle, rfl⟩, hsite, -⟩
      have hnone : items[i]? = none := by simpa [Nat.add_sub_cancel' hle] using h (i - n)
      rw [siteAt?, hnone] at hsite
      cases hsite
  | item :: rest, items, n, place, s, h => by
      have hhead {below : List Nat} {s' : Site} : (below, s') ∈ sitesOfItem marker items item ↔
          siteAt? items (n :: below) = some s' ∧ s'.Marked marker := mem_sitesOfItem item (h 0)
      -- a place leads into this item, or its index belongs to one behind it
      have hbehind (j : Nat) : items[n + 1 + j]? = rest[j]? := by
        rw [Nat.add_assoc, Nat.add_comm 1 j]
        exact h (j + 1)
      rw [sitesOfItems, List.mem_append, mem_sitesOfItems rest hbehind]
      constructor
      · rintro (hmem | hmem)
        · obtain ⟨⟨below, s'⟩, hs', heq⟩ := List.mem_map.mp hmem
          obtain ⟨rfl, rfl⟩ := Prod.mk.inj heq
          exact ⟨⟨n, below, Nat.le_refl n, rfl⟩, hhead.mp hs'⟩
        · obtain ⟨⟨i, below, hle, hplace⟩, hsite⟩ := hmem
          exact ⟨⟨i, below, Nat.le_of_succ_le hle, hplace⟩, hsite⟩
      · rintro ⟨⟨i, below, hle, rfl⟩, hsite⟩
        rcases Nat.eq_or_lt_of_le hle with rfl | hlt
        · exact Or.inl (List.mem_map.mpr ⟨(below, s), hhead.mpr hsite, rfl⟩)
        · exact Or.inr ⟨⟨i, below, hlt, rfl⟩, hsite⟩

end

/-! ## What becomes of them -/

/-- The root at a site of a file whose module has the namespace `home`. -/
def rootAt (home : Namespace) (origin : Origin) (s : Site) : Root where
  declaration := s.declaration.reprinted
  scope := .ofItems { home with segments := home.segments ++ s.modules } s.around
  origin := origin

theorem rootAt_inside (home : Namespace) (origin : Origin) (name : String) (s : Site) :
    rootAt home origin (s.inside name) = rootAt (home.child name) origin s := by
  simp [rootAt, Site.inside, Namespace.child]

mutual

theorem rootsOfItem_eq (origin : Origin) (home : Namespace) (around : List Item) : (item : Item) →
    rootsOfItem marker origin home (.ofItems home around) item =
      (sitesOfItem marker around item).map fun x => rootAt home origin x.2
  | .declaration d => by
      rw [rootsOfItem, sitesOfItem]
      split
      · simp [rootAt]
      · rfl
  | .module name (some items) => by
      rw [rootsOfItem, sitesOfItem, List.map_map,
        rootsOfItems_eq origin (home.child name) items 0 items]
      exact List.map_congr_left fun x _ => (rootAt_inside home origin name x.2).symm
  | .module _ none | .externCrate _ _ | .use _ _ | .typeAlias _ | .trait _ | .other => rfl

/-- **The roots of a module** are made of its sites, one from each. -/
theorem rootsOfItems_eq (origin : Origin) (home : Namespace) (around : List Item) (n : Nat) :
    (rest : List Item) → rootsOfItems marker origin home (.ofItems home around) rest =
      (sitesOfItems marker around n rest).map fun x => rootAt home origin x.2
  | [] => rfl
  | item :: rest => by
      rw [rootsOfItems, sitesOfItems, List.map_append, List.map_map,
        rootsOfItem_eq origin home around item, rootsOfItems_eq origin home around (n + 1) rest]
      rfl

end

end

/-! ## Files -/

/-- The root at a site of a file. -/
def SourceFile.rootAt (f : SourceFile) (s : Site) : Root :=
  ObservableStore.rootAt f.home (.ofSource f.path f.text) s

/-- A root is made of the outline of its site. -/
theorem SourceFile.rootAt_outline {f f' : SourceFile} {s s' : Site} (hhome : f'.home = f.home)
    (h : s'.outline = s.outline) :
    f'.rootAt s' = { f.rootAt s with origin := .ofSource f'.path f'.text } := by
  obtain ⟨hmodules, haround, hdeclaration⟩ := Site.mk.inj h
  have hscope (home : Namespace) : Scope.ofItems home s'.around = Scope.ofItems home s.around := by
    rw [← Scope.ofItems_outline, haround, Scope.ofItems_outline]
  simp only [rootAt, ObservableStore.rootAt, hhome, hmodules, hdeclaration, hscope]

/-- **The roots of a file are its marked declarations**: those at the top and those in inline modules at
    any depth, in the order of the source and each once. A root has the namespace of the file and of
    the modules around it, the origin of the file, and a strict scope. It is the same root, but for the
    origin, in every file of that namespace where the site has the same outline, whatever else the two
    files declare. -/
theorem SourceFile.roots_eq_marked {f : SourceFile} {items : List Item}
    (h : itemsOfText f.text = some items) (marker : String) :
    ∃ found : List (List Nat × Site),
      f.roots marker = .ok (found.map fun x => f.rootAt x.2) ∧
      found.Pairwise (fun x y => x.1 < y.1) ∧
      (∀ place s, (place, s) ∈ found ↔ siteAt? items place = some s ∧ s.Marked marker) ∧
      ∀ s, (f.rootAt s).home = { f.home with segments := f.home.segments ++ s.modules } ∧
        (f.rootAt s).origin = .ofSource f.path f.text ∧
        (f.rootAt s).scope.strict = true ∧
        ∀ (f' : SourceFile) (s' : Site), f'.home = f.home → s'.outline = s.outline →
          f'.rootAt s' = { f.rootAt s with origin := .ofSource f'.path f'.text } := by
  refine ⟨sitesOfItems marker items 0 items, ?_, ascending_sitesOfItems marker items 0 items,
    fun place s => ?_, fun s => ⟨Scope.home_ofItems _ _, rfl, Scope.strict_ofItems _ _, fun f' s' => rootAt_outline⟩⟩
  · rw [roots, h]
    exact congrArg Except.ok (rootsOfItems_eq _ f.home items 0 items)
  · rw [mem_sitesOfItems items fun j => by rw [Nat.zero_add]]
    exact ⟨And.right, fun hsite => ⟨index_of_siteAt? hsite.1, hsite⟩⟩

/-! ## An instance -/

/-- A file with a marked declaration at the top, one in a module and one in a module inside it. -/
def partsFile : SourceFile where
  path := ⟨"src/ui.rs"⟩
  home := .ofSegments ["crate", "ui"]
  text := "#[flow_store] struct Page; mod parts \x7b " ++
    "mod deep \x7b #[flow::flow_store] enum Mode \x7b On \x7d \x7d " ++
    "struct Plain; #[allow(x)] #[flow_store] union Raw \x7b n: u8 \x7d \x7d"

/-- The declaration without a marker is left out, and a module comes where it is written. -/
theorem roots_eq_marked_parts : ∃ (items : List Item) (found : List (List Nat × Site)),
    itemsOfText partsFile.text = some items ∧
    partsFile.roots "flow_store" = .ok (found.map fun x => partsFile.rootAt x.2) ∧
    found.Pairwise (fun x y => x.1 < y.1) ∧
    (∀ place s, (place, s) ∈ found ↔ siteAt? items place = some s ∧ s.Marked "flow_store") ∧
    found.map (fun x => ((partsFile.rootAt x.2).home.toText, (partsFile.rootAt x.2).name)) =
      [("crate::ui", "Page"), ("crate::ui::parts::deep", "Mode"), ("crate::ui::parts", "Raw")] := by
  have hnames : (partsFile.roots "flow_store").toOption.map
      (·.map fun r => (r.home.toText, r.name)) = some
        [("crate::ui", "Page"), ("crate::ui::parts::deep", "Mode"), ("crate::ui::parts", "Raw")] := by
    decide +kernel
  cases hitems : itemsOfText partsFile.text with
  | none =>
      rw [SourceFile.roots, hitems] at hnames
      cases hnames
  | some items =>
      obtain ⟨found, hroots, hascending, hmem, -⟩ := SourceFile.roots_eq_marked hitems "flow_store"
      rw [hroots] at hnames
      refine ⟨items, found, rfl, hroots, hascending, hmem, ?_⟩
      simpa only [Except.toOption, Option.map_some, List.map_map, Function.comp_def,
        Option.some.injEq] using hnames

end ObservableStore
