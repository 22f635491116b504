import ObservableStore.Proofs.Batch.FirstWins
import ObservableStore.Proofs.Sink.NoOverwrite

/-!
# `Proofs.Sink.Refinement` — a sink on a directory does what the one in memory does

The sink in memory is the specification of a sink: of two units with one key it takes the first. The
sink on a directory keeps two lists and a counter beside the tree, looks at what the tree holds before
it writes, and starts on any tree. As long as units with different keys have different places and no
file operation fails, the two give the same answers, have recorded the same keys, and the directory
holds what the memory holds, and besides it what it held before (`refines_memory`).

Shape of the argument. `Mirrors` relates the states of the two sinks, and one write of either keeps
it and gets the same answer (`Mirrors.write`); a whole run is an induction over the units.
-/

namespace ObservableStore

open FileTree

/-- Writes units one after another to a destination: what refused each of them, and the state at the
    end. -/
def writeEach {σ : Type} (sink : Destination σ) : σ → List GeneratedUnit → List (Option SinkError) × σ
  | s, [] => ([], s)
  | s, u :: rest =>
    let (refused, s') := sink s u
    let (others, last) := writeEach sink s' rest
    (refused :: others, last)

theorem writeEach_cons {σ : Type} (sink : Destination σ) (s : σ) (u : GeneratedUnit)
    (rest : List GeneratedUnit) :
    writeEach sink s (u :: rest) =
      ((sink s u).1 :: (writeEach sink (sink s u).2 rest).1, (writeEach sink (sink s u).2 rest).2) :=
  rfl

namespace MemorySink

variable {m : MemorySink} {u v : GeneratedUnit}

theorem mem_taken_destination (hv : v ∈ (destination m u).2.taken) : v ∈ m.taken ∨ v = u := by
  cases hget : m.get? u.key with
  | some first =>
      rw [destination_used hget] at hv
      exact Or.inl hv
  | none =>
      rw [destination_new hget] at hv
      exact (List.mem_append.mp hv).imp_right List.mem_singleton.mp

/-- A unit is refused as a duplicate and for no other reason. -/
theorem duplicate_of_refused {us : List GeneratedUnit} {e : SinkError}
    (he : some e ∈ (writeEach destination m us).1) :
    ∃ key firstOrigin, e = .duplicate key firstOrigin := by
  induction us generalizing m with
  | nil => cases he
  | cons u rest ih =>
      rw [writeEach_cons] at he
      rcases List.mem_cons.mp he with hfirst | hrest
      · cases hget : m.get? u.key with
        | some first =>
            rw [destination_used hget] at hfirst
            exact ⟨_, _, Option.some.inj hfirst⟩
        | none =>
            rw [destination_new hget] at hfirst
            cases hfirst
      · exact ih hrest

end MemorySink

namespace DirectorySink

variable {before t : FileTree} {s : DirectorySink} {m : MemorySink} {u : GeneratedUnit}

/-! ## One write by its check -/

theorem write_of_check_error {e : SinkError} (h : s.check u = .error e) :
    s.write t u = (some e, s, t) := by
  rw [write, h]

/-- What passed the check is refused by the file system only. -/
theorem refused_of_check_ok {e : SinkError} (h : s.check u = .ok ())
    (hrefused : (s.write t u).1 = some e) : ∃ fault, e = .file fault := by
  rw [write, h] at hrefused
  by_cases hholds : holds t (s.pathOf u) u.source = true
  · simp [hholds] at hrefused
  · cases hstore : t.store (s.pathOf u) u.source with
    | mk fault t' =>
        cases fault with
        | none => simp [hholds, hstore] at hrefused
        | some fault =>
            rw [if_neg hholds, hstore] at hrefused
            exact ⟨fault, (Option.some.inj hrefused).symm⟩

/-! ## The relation -/

/-- The sink on a directory mirrors the one in memory: it has recorded the same units, and the tree
    differs from the one before in their files only. -/
structure Mirrors (before : FileTree) (m : MemorySink) (s : DirectorySink) (t : FileTree) : Prop where
  recorded : Recorded s t m.taken
  /-- Only files of units that were taken have changed. -/
  others : ∃ changed, ChangesOnly changed before t ∧
    ∀ p ∈ changed, ∃ v ∈ m.taken, t.follow [] (s.pathOf v).components = .ok p

namespace Mirrors

theorem new (root : Location) (before : FileTree) :
    Mirrors before MemorySink.empty (new root) before where
  recorded := .new root before
  others := ⟨[], .refl [] before, by simp⟩

/-- The origin recorded under a key is that of the unit in memory. -/
theorem lookup_written (h : Mirrors before m s t) (k : UnitKey) :
    s.written.lookup k = (m.get? k).map (·.origin) := by
  rw [h.recorded.written, MemorySink.get?]
  induction m.taken with
  | nil => rfl
  | cons v rest ih =>
      rw [List.map_cons, List.lookup_cons, List.find?_cons]
      by_cases hk : v.key = k
      · simp [hk]
      · have hne : (k == v.key) = false := by simpa using Ne.symm hk
        have hne' : (v.key == k) = false := by simpa using hk
        rw [hne, hne']
        exact ih

/-- A unit with a key that was used is refused for the same reason. -/
theorem check_used (h : Mirrors before m s t) {first : GeneratedUnit}
    (hget : m.get? u.key = some first) :
    s.check u = .error (.duplicate u.key.toText first.origin.toText) := by
  rw [check, h.lookup_written, hget]
  rfl

/-- A unit with a new key passes the check, since no other key has its place. -/
theorem check_new (h : Mirrors before m s t) (hget : m.get? u.key = none)
    (hplaces : ∀ v ∈ m.taken, v.key ≠ u.key → v.relativePath.same u.relativePath = false) :
    s.check u = .ok () := by
  apply check_eq_ok.mpr
  constructor
  · rw [h.lookup_written, hget]
    rfl
  · rw [placed?, h.recorded.places, Option.map_eq_none_iff, List.find?_eq_none]
    intro place hplace
    obtain ⟨v, hv, rfl⟩ := List.mem_map.mp hplace
    have hkey : v.key ≠ u.key := by
      intro heq
      exact absurd (beq_iff_eq.mpr heq) (List.find?_eq_none.mp hget v hv)
    simp [hplaces v hv hkey]

/-- **One write of both.** The two sinks give the same answer, and the directory still mirrors the
    memory. -/
theorem write (h : Mirrors before m s t) (hu : u.Ordinary)
    (hplaces : ∀ v ∈ m.taken, v.key ≠ u.key → v.relativePath.same u.relativePath = false)
    (hfile : ∀ fault, (s.write t u).1 ≠ some (.file fault)) :
    (s.write t u).1 = (MemorySink.destination m u).1 ∧
      Mirrors before (MemorySink.destination m u).2 (s.write t u).2.1 (s.write t u).2.2 := by
  cases hget : m.get? u.key with
  | some first =>
      rw [MemorySink.destination_used hget, write_of_check_error (h.check_used hget)]
      exact ⟨rfl, h⟩
  | none =>
      rw [MemorySink.destination_new hget]
      have hcheck := h.check_new hget hplaces
      rcases write_cases s t hu with
        ⟨e, t', hwrite, -⟩ | ⟨wasThere, t', p, hwrite, -, hleads, honly⟩
      · -- a file operation would have failed
        obtain ⟨fault, rfl⟩ := refused_of_check_ok hcheck (congrArg Prod.fst hwrite)
        exact absurd (congrArg Prod.fst hwrite) (hfile fault)
      · rw [hwrite]
        refine ⟨rfl, h.recorded.record hu hcheck hleads honly.toKeepsBut wasThere, ?_⟩
        obtain ⟨changed, hchanged, hfrom⟩ := h.others
        refine ⟨changed ++ [p], hchanged.trans honly, ?_⟩
        intro q hq
        rcases List.mem_append.mp hq with hold | hnew
        · obtain ⟨v, hv, hfollow⟩ := hfrom q hold
          exact ⟨v, List.mem_append_left _ hv, honly.follow hfollow⟩
        · obtain rfl := List.mem_singleton.mp hnew
          exact ⟨u, List.mem_append_right _ List.mem_cons_self, hleads.follow⟩

/-- **A whole run of both**, of units among which no two keys share a place. -/
theorem writeEach (h : Mirrors before m s t) {all us : List GeneratedUnit}
    (hordinary : ∀ u ∈ all, u.Ordinary)
    (hplaces : ∀ v ∈ all, ∀ u ∈ all, v.key ≠ u.key → v.relativePath.same u.relativePath = false)
    (htaken : ∀ v ∈ m.taken, v ∈ all) (hus : ∀ u ∈ us, u ∈ all)
    (hfiles : ∀ fault, some (.file fault) ∉ (writeEach destination (s, t) us).1) :
    (writeEach destination (s, t) us).1 = (writeEach MemorySink.destination m us).1 ∧
      Mirrors before (writeEach MemorySink.destination m us).2
        (writeEach destination (s, t) us).2.1 (writeEach destination (s, t) us).2.2 := by
  induction us generalizing s t m with
  | nil => exact ⟨rfl, h⟩
  | cons u rest ih =>
      have hu : u ∈ all := hus u List.mem_cons_self
      obtain ⟨hanswer, hnext⟩ := h.write (hordinary u hu) (fun v hv => hplaces v (htaken v hv) u hu)
        fun fault heq => hfiles fault (heq ▸ List.mem_cons_self)
      have htaken' : ∀ v ∈ (MemorySink.destination m u).2.taken, v ∈ all := by
        intro v hv
        rcases MemorySink.mem_taken_destination hv with hold | rfl
        · exact htaken v hold
        · exact hu
      obtain ⟨hanswers, hlast⟩ := ih hnext htaken' (fun v hv => hus v (List.mem_cons_of_mem u hv))
        fun fault hmem => hfiles fault (List.mem_cons_of_mem _ hmem)
      exact ⟨congrArg₂ List.cons hanswer hanswers, hlast⟩

/-- What a mirror says of the tree: under every key it holds the text in memory, and the other files
    are those of before. -/
theorem tree (h : Mirrors before m s t) :
    (∀ k u, m.get? k = some u → t.readText (s.pathOf u) = .ok u.source) ∧
    ∀ p, (∀ u ∈ m.taken, t.position (s.pathOf u) ≠ .ok p) →
      ∀ contents, t.find? p = some (.file contents) ↔ before.find? p = some (.file contents) := by
  constructor
  · intro k u hget
    exact h.recorded.held u (List.mem_of_find?_eq_some hget)
  · intro p hp contents
    obtain ⟨changed, hchanged, hfrom⟩ := h.others
    apply hchanged.files_iff
    intro hmem
    obtain ⟨v, hv, hfollow⟩ := hfrom p hmem
    -- the place of a unit that was taken is the position of its file
    obtain ⟨q, hleads⟩ := readText_eq_ok.mp (h.recorded.held v hv)
    obtain rfl : q = p := Except.ok.inj (hleads.follow.symm.trans hfollow)
    exact hp v hv hleads.position

end Mirrors

/-! ## A batch -/

theorem writeEach_root (s : DirectorySink) (t : FileTree) (us : List GeneratedUnit) :
    (writeEach destination (s, t) us).2.1.root = s.root := by
  induction us generalizing s t with
  | nil => rfl
  | cons u rest ih =>
      rw [writeEach_cons]
      exact (ih _ _).trans (write_root s t u)

/-- **A sink on a directory refines the one in memory.** Take any tree, any output root and any
    ordinary units of which those with different keys have different places, and let no file
    operation fail. Then a new sink on the directory and a new one in memory give the same answer to
    every unit, which takes it or refuses it as a duplicate. Afterwards they have recorded the same
    keys with the same origins, the file of every unit recorded holds the text that is in memory
    under its key, and every other file of the tree is as it was. -/
theorem refines_memory (root : Location) (before : FileTree) (us : List GeneratedUnit)
    (hus : ∀ u ∈ us, u.Ordinary)
    (hplaces : ∀ v ∈ us, ∀ u ∈ us, v.key ≠ u.key → v.relativePath.same u.relativePath = false)
    (hfiles : ∀ fault,
      some (.file fault) ∉ (writeEach destination (new root, before) us).1) :
    let onDisk := writeEach destination (new root, before) us
    let inMemory := writeEach MemorySink.destination MemorySink.empty us
    onDisk.1 = inMemory.1 ∧
    (∀ e, some e ∈ onDisk.1 → ∃ key firstOrigin, e = .duplicate key firstOrigin) ∧
    onDisk.2.1.written = inMemory.2.taken.map (fun u => (u.key, u.origin)) ∧
    (∀ k, onDisk.2.1.written.lookup k = (inMemory.2.get? k).map (·.origin)) ∧
    (∀ k u, inMemory.2.get? k = some u →
      onDisk.2.2.readText (root.join u.relativePath) = .ok u.source) ∧
    ∀ p, (∀ u ∈ inMemory.2.taken, onDisk.2.2.position (root.join u.relativePath) ≠ .ok p) →
      ∀ contents, onDisk.2.2.find? p = some (.file contents) ↔
        before.find? p = some (.file contents) := by
  intro onDisk inMemory
  obtain ⟨hanswers, hlast⟩ := (Mirrors.new root before).writeEach hus hplaces
    (fun _ hv => absurd hv List.not_mem_nil) (fun _ hu => hu) hfiles
  have hroot : onDisk.2.1.root = root := writeEach_root (new root) before us
  obtain ⟨hheld, hothers⟩ := hlast.tree
  have hpath : ∀ u, onDisk.2.1.pathOf u = root.join u.relativePath := by
    intro u
    rw [pathOf, hroot]
  refine ⟨hanswers, ?_, hlast.recorded.written, hlast.lookup_written, ?_, ?_⟩
  · intro e he
    exact MemorySink.duplicate_of_refused (hanswers ▸ he)
  · intro k u hget
    exact hpath u ▸ hheld k u hget
  · intro p hp
    exact hothers p fun u hu => hpath u ▸ hp u hu

/-- Three units, the first of which lies in the directory already, while the last has its key again,
    with another text and another file name. A file beside them stays. -/
theorem refines_memory_beside :
    let unit (segments : List String) (file text : String) : GeneratedUnit :=
      ⟨.ofSegments segments, "AStore", file, text, .detached⟩
    let us := [unit ["crate"] "a_store.rs" "first", unit ["crate", "ui"] "a_store.rs" "second",
      unit ["crate"] "other.rs" "third"]
    let before := FileTree.directory
      [("out", .directory [("a_store.rs", .file (.text "first")), ("notes", .file (.text "kept"))])]
    let onDisk := writeEach destination (new ⟨"out"⟩, before) us
    let inMemory := writeEach MemorySink.destination MemorySink.empty us
    onDisk.1 = inMemory.1 ∧ inMemory.1.map Option.isSome = [false, false, true] ∧
    onDisk.2.1.written = inMemory.2.taken.map (fun u => (u.key, u.origin)) ∧
    onDisk.2.2.find? ["out", "notes"] = some (.file (.text "kept")) := by
  intro unit us before
  have hus : ∀ u ∈ us, u.Ordinary := by decide
  have hplaces : ∀ v ∈ us, ∀ u ∈ us, v.key ≠ u.key →
      v.relativePath.same u.relativePath = false := by decide +kernel
  have hanswers : (writeEach destination (new ⟨"out"⟩, before) us).1 =
      [none, none, some (.duplicate "crate::AStore" Origin.detached.toText)] := by decide +kernel
  have hfiles : ∀ fault,
      some (.file fault) ∉ (writeEach destination (new ⟨"out"⟩, before) us).1 := by
    intro fault
    rw [hanswers]
    simp
  have hplace : ∀ u ∈ (writeEach MemorySink.destination MemorySink.empty us).2.taken,
      (writeEach destination (new ⟨"out"⟩, before) us).2.2.position
        (Location.join ⟨"out"⟩ u.relativePath) ≠ .ok ["out", "notes"] := by decide +kernel
  have hnotes : before.find? ["out", "notes"] = some (.file (.text "kept")) := rfl
  obtain ⟨hsame, -, hwritten, -, -, hothers⟩ :=
    refines_memory ⟨"out"⟩ before us hus hplaces hfiles
  refine ⟨hsame, ?_, hwritten, (hothers ["out", "notes"] hplace _).mpr hnotes⟩
  rw [← hsame, hanswers]
  rfl

end DirectorySink

end ObservableStore
