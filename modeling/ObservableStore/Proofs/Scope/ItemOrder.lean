import Mathlib.Data.List.Perm.Basic
import ObservableStore.Proofs.Scope.Steps

/-!
# `Proofs.Scope.ItemOrder` — when the order of a module's items does not matter

The language gives the items of a module no order. A scope is grown item by item, though, and the
path of an import is made absolute with the names known so far. Modules and external crates come
first, so imports through them can stand anywhere. An import through another import cannot: in front
of that one it is taken for a path into an external crate (`import_order_matters`).

Nothing else depends on the order (`item_order_irrelevant`). Two steps that neither give the same
name nor open a door for each other can be exchanged (`apply_comm`): afterwards the two scopes agree
in all that paths are resolved with (`Agrees`).
-/

namespace ObservableStore.Scope

/-! ## Scopes that agree -/

/-- Two scopes cannot be told apart by resolving paths. -/
structure Agrees (s t : Scope) : Prop where
  home : s.home = t.home
  strict : s.strict = t.strict
  types : ∀ name, name ∈ s.types ↔ name ∈ t.types
  modules : ∀ name, name ∈ s.modules ↔ name ∈ t.modules
  imported : ∀ name, s.imported? name = t.imported? name
  globs : s.globs.Perm t.globs

namespace Agrees

variable {s t u : Scope}

theorem refl (s : Scope) : Agrees s s :=
  ⟨rfl, rfl, fun _ => Iff.rfl, fun _ => Iff.rfl, fun _ => rfl, .refl _⟩

theorem trans (h : Agrees s t) (h' : Agrees t u) : Agrees s u :=
  ⟨h.home.trans h'.home, h.strict.trans h'.strict, fun n => (h.types n).trans (h'.types n),
    fun n => (h.modules n).trans (h'.modules n), fun n => (h.imported n).trans (h'.imported n),
    h.globs.trans h'.globs⟩

theorem absolute (h : Agrees s t) (path : List String) : s.absolute path = t.absolute path :=
  absolute_congr h.home fun first _ => ⟨h.modules first, h.imported first⟩

theorem resolveName (h : Agrees s t) (name : String) : s.resolveName name = t.resolveName name := by
  have hglobs := h.globs
  have hlen := h.globs.length_eq
  simp only [Scope.resolveName, h.types name, h.imported name, h.home, h.strict]
  -- with one module imported as a whole it matters which one, and otherwise only how many there are
  rcases hs : s.globs with _ | ⟨g, _ | ⟨g', rest⟩⟩
  · rw [hs] at hglobs
    rw [List.nil_perm.mp hglobs]
  · rw [hs] at hglobs
    rw [List.singleton_perm.mp hglobs]
  · rw [hs] at hlen
    rcases ht : t.globs with _ | ⟨f, _ | ⟨f', more⟩⟩
    · simp [ht] at hlen
    · simp [ht] at hlen
    · rw [ht] at hlen
      simp only [hlen]

/-- **Scopes that agree resolve every path alike.** -/
theorem resolve (h : Agrees s t) (p : Source.Path) : s.resolve p = t.resolve p := by
  have hknows : ∀ first, s.knowsRoot first = t.knowsRoot first := by
    intro first
    simp only [knowsRoot, h.modules first, h.imported first]
  unfold Scope.resolve
  simp only [h.resolveName, h.strict, hknows, h.absolute]

theorem add (h : Agrees s t) (a : Addition) : Agrees (s.add a) (t.add a) where
  home := h.home
  strict := h.strict
  types name := by simp only [Scope.add, List.mem_append, h.types name]
  modules name := by simp only [Scope.add, List.mem_append, h.modules name]
  imported name := by
    simp only [Scope.add, imported?, List.lookup_append]
    exact congrArg _ (h.imported name)
  globs := h.globs.append_right a.globs

theorem addition (h : Agrees s t) (step : Step) : s.addition step = t.addition step := by
  cases step <;> simp only [Scope.addition, h.absolute]

theorem apply (h : Agrees s t) (step : Step) : Agrees (s.apply step) (t.apply step) := by
  rw [apply_eq_add, apply_eq_add, h.addition]
  exact h.add _

theorem run (h : Agrees s t) (steps : List Step) : Agrees (s.run steps) (t.run steps) := by
  induction steps generalizing s t with
  | nil => exact h
  | cons step steps ih => exact ih (h.apply step)

end Agrees

/-! ## Exchanging steps -/

/-- Two additions can be exchanged if they do not import the same name. -/
theorem add_comm (s : Scope) {a b : Addition}
    (h : ∀ name full full', (name, full) ∈ a.imports → (name, full') ∉ b.imports) :
    Agrees ((s.add a).add b) ((s.add b).add a) where
  home := rfl
  strict := rfl
  types name := by
    simp only [Scope.add, List.mem_append]
    exact or_left_comm
  modules name := by
    simp only [Scope.add, List.mem_append]
    exact or_left_comm
  imported name := by
    simp only [Scope.add, imported?, List.lookup_append]
    cases ha : a.imports.lookup name with
    | none => rw [Option.none_or, Option.none_or]
    | some full =>
        have hmem : (name, full) ∈ a.imports := by
          obtain ⟨before, after, hsplit, -⟩ := List.lookup_eq_some_iff.mp ha
          exact hsplit ▸ List.mem_append_right before List.mem_cons_self
        have hb : b.imports.lookup name = none := by
          rw [List.lookup_eq_none_iff]
          rintro ⟨other, full'⟩ hmem'
          rw [bne_iff_ne]
          rintro rfl
          exact h name full full' hmem hmem'
        rw [hb, Option.none_or, Option.some_or, Option.some_or]
  globs := by
    simp only [Scope.add, List.append_assoc]
    exact List.perm_append_comm.append_left _

/-- Two steps do not meet: they give different names, and neither goes through a door of the other
    one. -/
structure Step.Apart (x y : Step) : Prop where
  names : ∀ name, x.name? = some name → y.name? ≠ some name
  through : ∀ first, x.entry? = some first → y.door? ≠ some first
  through' : ∀ first, y.entry? = some first → x.door? ≠ some first

theorem Step.Apart.symm {x y : Step} (h : x.Apart y) : y.Apart x :=
  ⟨fun name hy hx => h.names name hx hy, h.through', h.through⟩

/-- What a step adds does not change with a step that opens no door for it. -/
theorem addition_apply {s : Scope} {x y : Step}
    (h : ∀ first, y.entry? = some first → x.door? ≠ some first) :
    (s.apply x).addition y = s.addition y := by
  cases y with
  | declareType name => rfl
  | declareModule name => rfl
  | importAs given path => simp only [addition, absolute_apply h]
  | importAll path => simp only [addition, absolute_apply h]

/-- **Two steps that do not meet can be exchanged.** -/
theorem apply_comm (s : Scope) {x y : Step} (h : x.Apart y) :
    Agrees ((s.apply x).apply y) ((s.apply y).apply x) := by
  have hx : (s.apply y).apply x = (s.add (s.addition y)).add (s.addition x) := by
    rw [apply_eq_add, addition_apply h.through, apply_eq_add]
  have hy : (s.apply x).apply y = (s.add (s.addition x)).add (s.addition y) := by
    rw [apply_eq_add, addition_apply h.through', apply_eq_add]
  rw [hx, hy]
  refine add_comm s ?_
  intro name full full' hfull hfull'
  obtain ⟨path, rfl⟩ := name_of_mem_imports hfull
  obtain ⟨path', rfl⟩ := name_of_mem_imports hfull'
  exact h.names name rfl rfl

/-- A step can be exchanged with a run of steps that it does not meet. -/
theorem run_apply_comm (s : Scope) {x : Step} {ys : List Step} (h : ∀ y ∈ ys, x.Apart y) :
    Agrees ((s.apply x).run ys) ((s.run ys).apply x) := by
  induction ys generalizing s with
  | nil => exact .refl _
  | cons y ys ih =>
      have hswap := apply_comm s (h y List.mem_cons_self)
      exact (hswap.run ys).trans (ih (s.apply y) fun z hz => h z (List.mem_cons_of_mem y hz))

/-- Two runs can be exchanged if no step of one meets a step of the other one. -/
theorem run_comm (s : Scope) {xs ys : List Step} (h : ∀ x ∈ xs, ∀ y ∈ ys, x.Apart y) :
    Agrees ((s.run xs).run ys) ((s.run ys).run xs) := by
  induction xs generalizing s with
  | nil => exact .refl _
  | cons x xs ih =>
      have hrest := ih (s.apply x) fun z hz => h z (List.mem_cons_of_mem x hz)
      have hfirst := run_apply_comm s (h x List.mem_cons_self)
      exact hrest.trans (hfirst.run xs)

/-- The runs of things that do not meet can be put in any order. -/
theorem run_perm {α : Type} {f : α → List Step} {as bs : List α} (hperm : as.Perm bs) (s : Scope)
    (h : as.Pairwise fun a b => ∀ x ∈ f a, ∀ y ∈ f b, x.Apart y) :
    Agrees (s.run (as.flatMap f)) (s.run (bs.flatMap f)) := by
  induction hperm generalizing s with
  | nil => exact .refl _
  | cons a hperm ih =>
      rw [List.flatMap_cons, List.flatMap_cons, run_append, run_append]
      exact ih (s.run (f a)) (List.pairwise_cons.mp h).2
  | swap a b rest =>
      simp only [List.flatMap_cons, run_append]
      have hba := (List.pairwise_cons.mp h).1 a List.mem_cons_self
      exact (run_comm s hba).run (rest.flatMap f)
  | trans hperm hperm' ih ih' =>
      have hsymm : ∀ {a b : α}, (∀ x ∈ f a, ∀ y ∈ f b, x.Apart y) → ∀ x ∈ f b, ∀ y ∈ f a, x.Apart y :=
        fun hab x hx y hy => (hab y hy x hx).symm
      exact (ih s h).trans (ih' s (hperm.pairwise h hsymm))

/-! ## Items -/

/-- The names that an item gives to something. -/
def names (item : Source.Item) : List String :=
  (rootSteps item ++ itemSteps item).filterMap Step.name?

/-- An import of `a` goes through a name that `b` gives to something else: an external crate that is
    called like a module or like what another one is renamed to, or an import that begins with the
    name of another import. -/
def GoesThrough (a b : Source.Item) : Prop :=
  (∃ x ∈ rootSteps a, ∃ y ∈ rootSteps b, ∃ name ∈ x.entry?, y.door? = some name) ∨
  (∃ x ∈ itemSteps a, ∃ y ∈ itemSteps b, ∃ name ∈ x.entry?, y.door? = some name)

instance : DecidableRel GoesThrough := fun _ _ => inferInstanceAs (Decidable (_ ∨ _))

/-- Items that give different names, and of which none goes through the other one, have no steps that
    meet. -/
theorem apart_of_items {a b : Source.Item} (hnames : ∀ name ∈ names a, name ∉ names b)
    (hab : ¬ GoesThrough a b) (hba : ¬ GoesThrough b a) :
    (∀ x ∈ rootSteps a, ∀ y ∈ rootSteps b, x.Apart y) ∧
    (∀ x ∈ itemSteps a, ∀ y ∈ itemSteps b, x.Apart y) := by
  have hmem : ∀ {item : Source.Item} {x : Step} {name : String},
      x ∈ rootSteps item ∨ x ∈ itemSteps item → x.name? = some name → name ∈ names item :=
    fun hx hname => List.mem_filterMap.mpr ⟨_, List.mem_append.mpr hx, hname⟩
  refine ⟨fun x hx y hy => ⟨?_, ?_, ?_⟩, fun x hx y hy => ⟨?_, ?_, ?_⟩⟩
  · exact fun name hxn hyn => hnames name (hmem (.inl hx) hxn) (hmem (.inl hy) hyn)
  · exact fun first hentry hdoor => hab (.inl ⟨x, hx, y, hy, first, hentry, hdoor⟩)
  · exact fun first hentry hdoor => hba (.inl ⟨y, hy, x, hx, first, hentry, hdoor⟩)
  · exact fun name hxn hyn => hnames name (hmem (.inr hx) hxn) (hmem (.inr hy) hyn)
  · exact fun first hentry hdoor => hab (.inr ⟨x, hx, y, hy, first, hentry, hdoor⟩)
  · exact fun first hentry hdoor => hba (.inr ⟨y, hy, x, hx, first, hentry, hdoor⟩)

/-- **The order of items does not matter** where no two items give the same name and no item's
    imports go through a name of another one: the scopes of all orders resolve every path alike.
    They may go through modules, and those that `use` writes through external crates. -/
theorem item_order_irrelevant (home : Namespace) {items items' : List Source.Item}
    (hperm : items.Perm items')
    (hnames : items.Pairwise fun a b => ∀ name ∈ names a, name ∉ names b)
    (hthrough : items.Pairwise fun a b => ¬ GoesThrough a b ∧ ¬ GoesThrough b a)
    (p : Source.Path) : (ofItems home items).resolve p = (ofItems home items').resolve p := by
  have hapart := (hnames.and hthrough).imp fun h => apart_of_items h.1 h.2.1 h.2.2
  rw [ofItems_eq_run, ofItems_eq_run, run_append, run_append]
  -- the first run is that of modules and external crates, the second one that of the other items
  have hroots := run_perm hperm (strictly home) (hapart.imp And.left)
  have hitems := run_perm hperm ((strictly home).run (items'.flatMap rootSteps)) (hapart.imp And.right)
  exact ((hroots.run _).trans hitems).resolve p

/-- Items of a module with an import through a module and one through an external crate:
    `use inner::Part;`, `mod inner;`, `use gui::{Row, widgets::*};`, `extern crate toolkit as gui;`
    and `struct Page;`. -/
def pageItems : List Source.Item :=
  [.use false (.path "inner" (.name "Part")), .module "inner" none,
    .use false (.path "gui" (.group [.name "Row", .path "widgets" .glob])),
    .externCrate "toolkit" (some "gui"), .declaration ⟨[], .none, "Page", false, .unit⟩]

/-- The order of these items does not matter: `Part` is a type of the inner module, whether the
    module comes first or last. -/
theorem item_order_irrelevant_page :
    let home := Namespace.ofSegments ["crate", "ui"]
    let part : Source.Path := ⟨false, ["Part"]⟩
    pageItems.Perm pageItems.reverse ∧
    pageItems.Pairwise (fun a b => ∀ name ∈ names a, name ∉ names b) ∧
    pageItems.Pairwise (fun a b => ¬ GoesThrough a b ∧ ¬ GoesThrough b a) ∧
    (ofItems home pageItems).resolve part = (ofItems home pageItems.reverse).resolve part ∧
    (ofItems home pageItems).resolve part = .ok ⟨.ofSegments ["crate", "ui", "inner"], "Part"⟩ := by
  intro home part
  have hperm : pageItems.Perm pageItems.reverse := (List.reverse_perm _).symm
  have hnames : pageItems.Pairwise fun a b => ∀ name ∈ names a, name ∉ names b := by decide
  have hthrough : pageItems.Pairwise fun a b => ¬ GoesThrough a b ∧ ¬ GoesThrough b a := by decide
  exact ⟨hperm, hnames, hthrough, item_order_irrelevant home hperm hnames hthrough part, rfl⟩

/-- The imports `use fmt::Error;` and `use std::fmt;`. -/
def importsOfError : List Source.Item :=
  [.use false (.path "fmt" (.name "Error")), .use false (.path "std" (.name "fmt"))]

/-- **An import in front of the one that it goes through** is taken for an import from an external
    crate, and behind it for what it is. -/
theorem import_order_matters :
    let home := Namespace.ofSegments ["crate", "ui"]
    let error : Source.Path := ⟨false, ["Error"]⟩
    importsOfError.Perm importsOfError.reverse ∧
    importsOfError.Pairwise (fun a b => ∀ name ∈ names a, name ∉ names b) ∧
    (ofItems home importsOfError).resolve error = .ok ⟨.ofSegments ["fmt"], "Error"⟩ ∧
    (ofItems home importsOfError.reverse).resolve error = .ok ⟨.ofSegments ["std", "fmt"], "Error"⟩ := by
  intro home error
  exact ⟨(List.reverse_perm _).symm, by decide, rfl, rfl⟩

end ObservableStore.Scope
