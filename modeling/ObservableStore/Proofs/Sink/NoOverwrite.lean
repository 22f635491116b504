import Mathlib.Data.List.Nodup
import ObservableStore.Proofs.FileTree.Look
import ObservableStore.Proofs.FileTree.Store
import ObservableStore.Sink.Directory

/-!
# `Proofs.Sink.NoOverwrite` — what a sink on a directory wrote stays

A sink takes a unit only if its key and its place are new. What a write can do is said once
(`write_cases`): it refuses the unit, and then no file changes, or it takes it, and then only the
file at the unit's place may change. Two places that differ are two positions in the tree as long as
they are written with names, since both are followed from the same root. So every unit taken is
still in its file (`Recorded`), one more write keeps this (`Recorded.write`), and over a batch it is
`no_overwrite`.
-/

namespace ObservableStore

open FileTree

namespace GeneratedUnit

/-- The names that lead to a unit from the output root. -/
def names (u : GeneratedUnit) : List String :=
  u.home.segments.dropWhile (· == "crate") ++ [u.fileName]

/-- The segments of the namespace and the file name can be names of directories and files. -/
def Ordinary (u : GeneratedUnit) : Prop :=
  (∀ n ∈ u.home.segments, Location.IsName n) ∧ Location.IsName u.fileName

instance (u : GeneratedUnit) : Decidable u.Ordinary :=
  inferInstanceAs (Decidable (_ ∧ _))

variable {u : GeneratedUnit}

theorem relativePath_eq (u : GeneratedUnit) : u.relativePath = .ofSegments u.names := by
  rw [relativePath, Namespace.relativeDir, names, Location.ofSegments, Location.ofSegments,
    List.foldl_append]
  rfl

theorem Ordinary.names (h : u.Ordinary) : ∀ n ∈ u.names, Location.IsName n := by
  intro n hn
  rcases List.mem_append.mp hn with hn | hn
  · exact h.1 n ((List.dropWhile_sublist _).subset hn)
  · exact List.mem_singleton.mp hn ▸ h.2

theorem Ordinary.components (h : u.Ordinary) :
    u.relativePath.components = u.names.map .name := by
  rw [relativePath_eq, Location.components_ofSegments h.names]

end GeneratedUnit

namespace DirectorySink

variable {s s' : DirectorySink} {t t' : FileTree} {u v : GeneratedUnit} {taken : List GeneratedUnit}

/-! ## Places -/

theorem components_pathOf (s : DirectorySink) (h : u.Ordinary) :
    (s.pathOf u).components = s.root.components ++ u.names.map .name := by
  rw [pathOf, GeneratedUnit.relativePath_eq]
  exact Location.components_join s.root (by simp [GeneratedUnit.names]) h.names

/-- The place of a unit is where its names lead from the root. -/
theorem follow_pathOf {p : List String} (h : u.Ordinary)
    (hf : t.follow [] (s.pathOf u).components = .ok p) :
    ∃ base, t.follow [] s.root.components = .ok base ∧ p = base ++ u.names := by
  rw [components_pathOf s h, follow_append] at hf
  obtain ⟨base, hroot, hnames⟩ := bind_eq_ok.mp hf
  exact ⟨base, hroot, follow_names hnames⟩

/-! ## One write -/

theorem check_eq_ok : s.check u = .ok () ↔
    s.written.lookup u.key = none ∧ s.placed? u.relativePath = none := by
  rw [check]
  cases s.written.lookup u.key with
  | some origin => simp [checkUnique, bind, Except.bind]
  | none =>
      cases s.placed? u.relativePath with
      | some first => simp [checkUnique, bind, Except.bind]
      | none => simp [checkUnique, bind, Except.bind]

theorem readText_of_holds {l : Location} {text : String} (h : holds t l text = true) :
    t.readText l = .ok text := by
  rw [holds] at h
  split at h
  · next found hread => rw [hread, beq_iff_eq.mp h]
  · cases h

/-- **What a write does.** It refuses the unit and changes no file, or it takes a unit with a new key
    and a new place, and changes at most the file at that place. -/
theorem write_cases (s : DirectorySink) (t : FileTree) (hu : u.Ordinary) :
    (∃ e t', s.write t u = (some e, s, t') ∧ ChangesOnly [] t t') ∨
    ∃ wasThere t' p, s.write t u = (none, s.record u wasThere, t') ∧ s.check u = .ok () ∧
      t'.LeadsToFile (s.pathOf u) p (.text u.source) ∧ ChangesOnly [p] t t' := by
  rw [write]
  cases hcheck : s.check u with
  | error e => exact Or.inl ⟨e, t, rfl, .refl [] t⟩
  | ok =>
      by_cases hholds : holds t (s.pathOf u) u.source = true
      · -- nothing is written, since the file has the text already
        obtain ⟨p, hleads⟩ := readText_eq_ok.mp (readText_of_holds hholds)
        exact Or.inr ⟨true, t, p, by simp [hholds], rfl, hleads, .refl [p] t⟩
      · have hlast : (s.pathOf u).components.getLast? = some (.name u.fileName) := by
          rw [components_pathOf s hu, GeneratedUnit.names]
          simp
        cases hstore : t.store (s.pathOf u) u.source with
        | mk fault t' =>
            cases fault with
            | some fault =>
                exact Or.inl ⟨.file fault, t', by simp [hholds], only_store_fault hstore⟩
            | none =>
                obtain ⟨p, hleads, honly⟩ := only_store (inside_of_isName hu.2) hlast hstore
                exact Or.inr ⟨false, t', p, by simp [hholds], rfl, hleads, honly⟩

/-! ## The sink itself -/

/-- A sink records a unit that it takes and stays as it is when it refuses one. -/
theorem write_sink (s : DirectorySink) (t : FileTree) (u : GeneratedUnit) :
    (∃ e t', s.write t u = (some e, s, t')) ∨
    ∃ wasThere t', s.write t u = (none, s.record u wasThere, t') := by
  rw [write]
  cases s.check u with
  | error e => exact Or.inl ⟨e, t, rfl⟩
  | ok =>
      by_cases hholds : holds t (s.pathOf u) u.source = true
      · exact Or.inr ⟨true, t, by simp [hholds]⟩
      · cases hstore : t.store (s.pathOf u) u.source with
        | mk fault t' =>
            cases fault with
            | some e => exact Or.inl ⟨.file e, t', by simp [hholds]⟩
            | none => exact Or.inr ⟨false, t', by simp [hholds]⟩

theorem write_root (s : DirectorySink) (t : FileTree) (u : GeneratedUnit) :
    (s.write t u).2.1.root = s.root := by
  rcases write_sink s t u with ⟨e, t', hwrite⟩ | ⟨wasThere, t', hwrite⟩
  · rw [hwrite]
  · rw [hwrite]
    rfl

/-! ## What is recorded -/

/-- A sink has taken some units, in order, and the tree holds them. -/
structure Recorded (s : DirectorySink) (t : FileTree) (taken : List GeneratedUnit) : Prop where
  written : s.written = taken.map fun u => (u.key, u.origin)
  places : s.places = taken.map fun u => (u.relativePath, u.key)
  ordinary : ∀ u ∈ taken, u.Ordinary
  keys : (taken.map (·.key)).Nodup
  apart : (taken.map (·.names)).Nodup
  held : ∀ u ∈ taken, t.readText (s.pathOf u) = .ok u.source

namespace Recorded

/-- A new key is not among those taken. -/
theorem key_not_mem (h : Recorded s t taken) (hu : s.written.lookup u.key = none) :
    u.key ∉ taken.map (·.key) := by
  intro hmem
  obtain ⟨v, hv, heq⟩ := List.mem_map.mp hmem
  have hne := List.lookup_eq_none_iff.mp hu (v.key, v.origin)
    (h.written ▸ List.mem_map_of_mem hv)
  rw [heq] at hne
  simp at hne

/-- A new place is not among those taken. -/
theorem names_not_mem (h : Recorded s t taken) (hu : u.Ordinary)
    (hfree : s.placed? u.relativePath = none) : u.names ∉ taken.map (·.names) := by
  intro hmem
  obtain ⟨v, hv, heq⟩ := List.mem_map.mp hmem
  have hne := List.find?_eq_none.mp (Option.map_eq_none_iff.mp hfree) (v.relativePath, v.key)
    (h.places ▸ List.mem_map_of_mem hv)
  refine hne (beq_iff_eq.mpr ?_)
  rw [(h.ordinary v hv).components, hu.components, heq]

/-- A change that leaves the units taken alone. -/
theorem of_keepsBut {changed : List (List String)} (h : Recorded s t taken)
    (hk : KeepsBut changed t t')
    (hne : ∀ u ∈ taken, ∀ p, t.follow [] (s.pathOf u).components = .ok p → p ∉ changed) :
    Recorded s t' taken :=
  { h with held := fun u hu => hk.readText (h.held u hu) (hne u hu) }

/-- Different places are different positions. -/
theorem position_ne {p q : List String} (h : Recorded s t taken) (hk : KeepsBut [p] t t')
    (hu : u.Ordinary) (hnew : u.names ∉ taken.map (·.names))
    (hp : t'.follow [] (s.pathOf u).components = .ok p) (hv : v ∈ taken)
    (hq : t.follow [] (s.pathOf v).components = .ok q) : q ∉ [p] := by
  obtain ⟨base, hbase, rfl⟩ := follow_pathOf hu hp
  obtain ⟨base', hbase', rfl⟩ := follow_pathOf (h.ordinary v hv) hq
  -- the root is still where it was
  obtain rfl : base' = base := Except.ok.inj ((hk.follow hbase').symm.trans hbase)
  intro hmem
  have heq := List.append_cancel_left (List.mem_singleton.mp hmem)
  exact hnew (heq ▸ List.mem_map_of_mem hv)

/-- A unit with a new key and a new place is recorded: the units taken before are still in their
    files. -/
theorem record (h : Recorded s t taken) (hu : u.Ordinary) (hcheck : s.check u = .ok ())
    {p : List String} (hleads : t'.LeadsToFile (s.pathOf u) p (.text u.source))
    (hk : KeepsBut [p] t t') (wasThere : Bool) :
    Recorded (s.record u wasThere) t' (taken ++ [u]) := by
  obtain ⟨hkey, hplace⟩ := check_eq_ok.mp hcheck
  -- the only position that may have changed belongs to none of the units taken before
  have hnew := h.names_not_mem hu hplace
  have hold := h.of_keepsBut hk fun v hv q hq =>
    h.position_ne hk hu hnew hleads.follow hv hq
  constructor
  · simp [DirectorySink.record, h.written]
  · simp [DirectorySink.record, h.places]
  · intro v hv
    rcases List.mem_append.mp hv with hv | hv
    · exact h.ordinary v hv
    · exact List.mem_singleton.mp hv ▸ hu
  · rw [List.map_append, List.map_singleton, ← List.concat_eq_append]
    exact List.Nodup.concat (h.key_not_mem hkey) h.keys
  · rw [List.map_append, List.map_singleton, ← List.concat_eq_append]
    exact List.Nodup.concat hnew h.apart
  · intro v hv
    rcases List.mem_append.mp hv with hv | hv
    · exact hold.held v hv
    · obtain rfl := List.mem_singleton.mp hv
      exact readText_eq_ok.mpr ⟨p, hleads⟩

/-- One more write: the units taken are still in their files, and so is the new one if it was
    taken. -/
theorem write (h : Recorded s t taken) (hu : u.Ordinary) :
    (∃ e t', s.write t u = (some e, s, t') ∧ Recorded s t' taken) ∨
    ∃ wasThere t', s.write t u = (none, s.record u wasThere, t') ∧
      Recorded (s.record u wasThere) t' (taken ++ [u]) := by
  rcases write_cases s t hu with ⟨e, t', hwrite, hk⟩ | ⟨wasThere, t', p, hwrite, hcheck, hleads, hk⟩
  · exact Or.inl ⟨e, t', hwrite, h.of_keepsBut hk.toKeepsBut fun _ _ _ _ => List.not_mem_nil⟩
  · exact Or.inr ⟨wasThere, t', hwrite, h.record hu hcheck hleads hk.toKeepsBut wasThere⟩

end Recorded

/-! ## A batch -/

/-- What a batch of writes leaves behind. -/
structure Batch where
  /-- The units that were not refused, in order. -/
  taken : List GeneratedUnit
  sink : DirectorySink
  tree : FileTree

/-- Writes units one after another. -/
def writeAll (s : DirectorySink) (t : FileTree) : List GeneratedUnit → Batch
  | [] => ⟨[], s, t⟩
  | u :: rest =>
    match s.write t u with
    | (some _, s', t') => s'.writeAll t' rest
    | (none, s', t') =>
      let last := s'.writeAll t' rest
      { last with taken := u :: last.taken }

/-- Each key taken has one place and each place taken has one key. Keys and places are taken once,
    and a place is what its components say. -/
structure OneToOne (s : DirectorySink) : Prop where
  keys : (s.written.map Prod.fst).Nodup
  places : (s.places.map fun p => p.1.components).Nodup
  place_of_key : ∀ k ∈ s.written.map Prod.fst, ∃! p, p ∈ s.places ∧ p.2 = k
  key_of_place : ∀ p ∈ s.places, p.2 ∈ s.written.map Prod.fst

namespace Recorded

theorem new (root : Location) (t : FileTree) : Recorded (new root) t [] := by
  constructor <;> simp [DirectorySink.new]

theorem oneToOne (h : Recorded s t taken) : s.OneToOne := by
  have hkeys : s.written.map Prod.fst = taken.map (·.key) := by
    rw [h.written, List.map_map]
    rfl
  refine ⟨hkeys ▸ h.keys, ?_, ?_, ?_⟩
  · have hcomponents : s.places.map (fun p => p.1.components)
        = (taken.map (·.names)).map fun names => names.map Component.name := by
      rw [h.places, List.map_map, List.map_map]
      exact List.map_congr_left fun u hu => (h.ordinary u hu).components
    rw [hcomponents]
    exact h.apart.map (List.map_injective_iff.mpr fun _ _ => Component.name.inj)
  · intro k hk
    obtain ⟨u, hu, rfl⟩ := List.mem_map.mp (hkeys ▸ hk)
    refine ⟨(u.relativePath, u.key), ⟨h.places ▸ List.mem_map_of_mem hu, rfl⟩, ?_⟩
    rintro p ⟨hp, hkey⟩
    obtain ⟨v, hv, rfl⟩ := List.mem_map.mp (h.places ▸ hp)
    rw [List.inj_on_of_nodup_map h.keys hv hu hkey]
  · intro p hp
    obtain ⟨u, hu, rfl⟩ := List.mem_map.mp (h.places ▸ hp)
    exact hkeys ▸ List.mem_map_of_mem hu

/-- Any number of further writes. -/
theorem writeAll (h : Recorded s t taken) {us : List GeneratedUnit} (hus : ∀ u ∈ us, u.Ordinary) :
    let b := s.writeAll t us
    b.sink.root = s.root ∧ Recorded b.sink b.tree (taken ++ b.taken) := by
  induction us generalizing s t taken with
  | nil => exact ⟨rfl, (List.append_nil taken).symm ▸ h⟩
  | cons u rest ih =>
      have hrest : ∀ v ∈ rest, v.Ordinary := fun v hv => hus v (List.mem_cons_of_mem u hv)
      rcases h.write (hus u List.mem_cons_self) with
        ⟨e, t', hwrite, hrecorded⟩ | ⟨wasThere, t', hwrite, hrecorded⟩
      · have hlast := ih hrecorded hrest
        simp only [DirectorySink.writeAll, hwrite]
        exact hlast
      · obtain ⟨hroot, hlast⟩ := ih hrecorded hrest
        rw [List.append_assoc] at hlast
        simp only [DirectorySink.writeAll, hwrite]
        exact ⟨hroot, hlast⟩

end Recorded

/-- **Nothing that a batch wrote is overwritten.** After any number of writes of ordinary units to a
    sink that has taken nothing, on any tree: keys and places are in one-to-one correspondence, they
    are those of the units taken, in order, and the file of each of these units holds its text. -/
theorem no_overwrite (root : Location) (t : FileTree) (us : List GeneratedUnit)
    (hus : ∀ u ∈ us, u.Ordinary) :
    let b := (new root).writeAll t us
    b.sink.OneToOne ∧
    b.sink.written = b.taken.map (fun u => (u.key, u.origin)) ∧
    b.sink.places = b.taken.map (fun u => (u.relativePath, u.key)) ∧
    ∀ u ∈ b.taken, b.tree.readText (root.join u.relativePath) = .ok u.source := by
  intro b
  obtain ⟨hroot, hrecorded⟩ := (Recorded.new root t).writeAll hus
  refine ⟨hrecorded.oneToOne, hrecorded.written, hrecorded.places, ?_⟩
  intro u hu
  have hheld := hrecorded.held u hu
  rw [pathOf, hroot] at hheld
  exact hheld

/-- Four units, of which the second has the place of the first under another key and the fourth needs
    a directory where the file of the first is. Both are refused, and the first one, which replaced
    what the file held before the batch, stays. -/
theorem no_overwrite_shared_place :
    let unit (segments : List String) (file text : String) : GeneratedUnit :=
      ⟨.ofSegments segments, "AStore", file, text, .detached⟩
    let first := unit ["crate"] "a_store.rs" "first"
    let us := [first, unit ["crate", "crate"] "a_store.rs" "second",
      unit ["crate", "ui"] "a_store.rs" "third", unit ["crate", "a_store.rs"] "b_store.rs" "fourth"]
    let t := FileTree.directory [("out", .directory [("a_store.rs", .file (.text "before"))])]
    let b := (new ⟨"out"⟩).writeAll t us
    (∀ u ∈ us, u.Ordinary) ∧ b.taken.map (·.source) = ["first", "third"] ∧
    b.tree.readText ⟨"out/a_store.rs"⟩ = .ok "first" := by
  intro unit first us t b
  have hus : ∀ u ∈ us, u.Ordinary := by decide
  have hplace : Location.join ⟨"out"⟩ first.relativePath = ⟨"out/a_store.rs"⟩ := by decide
  have hfirst : first ∈ b.taken := by decide +kernel
  have hheld := (no_overwrite ⟨"out"⟩ t us hus).2.2.2 first hfirst
  rw [hplace] at hheld
  exact ⟨hus, by decide +kernel, hheld⟩

end DirectorySink

end ObservableStore
