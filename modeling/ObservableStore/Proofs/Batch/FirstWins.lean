import ObservableStore.Batch
import ObservableStore.Proofs.Describe

/-!
# `Proofs.Batch.FirstWins` — of declarations with one key, a batch delivers the first

A batch is one pass over its declarations, in which failures to describe, duplicates and successes
share the sink. Its outcome is nevertheless a function of the list: what becomes of a declaration
depends on the declarations before it only through the first one with its key (`first?`).
`Batched` says so for the declarations seen so far, one more declaration keeps it
(`Batched.step`), and over the whole list it is `first_wins`.
-/

namespace ObservableStore

/-! ## Lists without repetitions -/

section EraseDups

variable {α : Type} [BEq α] [LawfulBEq α] {l : List α} {x : α}

theorem eraseDups_concat_of_mem (h : x ∈ l) : (l ++ [x]).eraseDups = l.eraseDups := by
  have hremoved : [x].removeAll l = [] := by simp [List.removeAll, h]
  rw [List.eraseDups_append, hremoved, List.eraseDups_nil, List.append_nil]

theorem eraseDups_concat_of_not_mem (h : x ∉ l) : (l ++ [x]).eraseDups = l.eraseDups ++ [x] := by
  have hkept : [x].removeAll l = [x] := by simp [List.removeAll, h]
  rw [List.eraseDups_append, hkept, List.eraseDups_cons, List.filter_nil, List.eraseDups_nil]

end EraseDups

/-! ## The outcome as a function of the list -/

namespace Root

/-- The key of a declaration's unit. -/
def key (r : Root) : UnitKey := ⟨r.home, r.name ++ "Store"⟩

/-- The key of the unit of a declaration that has a description. -/
def key? (r : Root) : Option UnitKey := r.describe.toOption.map fun _ => r.key

/-- The unit of a declaration that has a description. -/
def unit? (o : EmitOptions) (r : Root) : Option GeneratedUnit :=
  r.describe.toOption.map fun d => d.emit o

/-- The first declaration with a description and a key. -/
def first? (roots : List Root) (k : UnitKey) : Option Root :=
  roots.find? fun r => r.key? == some k

/-- Why a declaration fails behind others: it has no description, or one of the others has taken its
    key. -/
def failure? (before : List Root) (r : Root) : Option Failure :=
  match r.describe with
  | .error f => some f
  | .ok _ => (first? before r.key).map fun first =>
      ⟨r.home, r.name,
        .outputWrite r.key.name (.duplicate r.key.toText first.origin.toText)⟩

/-- The failures of declarations, each behind those before it. -/
def failures (roots : List Root) : List Failure :=
  (roots.mapIdx fun i r => failure? (roots.take i) r).filterMap id

variable {r first : Root} {d : StoreDescription} {o : EmitOptions} {k : UnitKey}

/-! ### One declaration -/

theorem key?_of_ok (h : r.describe = .ok d) : r.key? = some r.key := by
  rw [key?, h]
  rfl

theorem key?_of_error {f : Failure} (h : r.describe = .error f) : r.key? = none := by
  rw [key?, h]
  rfl

theorem unit?_of_ok (h : r.describe = .ok d) : r.unit? o = some (d.emit o) := by
  rw [unit?, h]
  rfl

/-- The unit of a declaration has its key and its origin. -/
theorem emit_of_ok (h : r.describe = .ok d) :
    (d.emit o).key = r.key ∧ (d.emit o).origin = r.origin := by
  obtain ⟨-, horigin, hhome, hroot⟩ := describe_ok h
  refine ⟨?_, horigin⟩
  show UnitKey.mk d.home (d.root ++ "Store") = r.key
  rw [hhome, hroot]
  rfl

/-- A declaration with a key has a description. -/
theorem ok_of_key? (h : r.key? = some k) : (∃ d, r.describe = .ok d) ∧ r.key = k := by
  cases hd : r.describe with
  | error f =>
      rw [key?_of_error hd] at h
      cases h
  | ok d =>
      rw [key?_of_ok hd] at h
      exact ⟨⟨d, rfl⟩, Option.some.inj h⟩

/-- **A failure names its declaration.** -/
theorem failure?_names {before : List Root} {f : Failure} (h : failure? before r = some f) :
    f.home = r.home ∧ f.declaration = r.name := by
  unfold failure? at h
  split at h
  · next hd =>
      obtain rfl := Option.some.inj h
      exact describe_error hd
  · obtain ⟨first, -, rfl⟩ := Option.map_eq_some_iff.mp h
    exact ⟨rfl, rfl⟩

/-! ### One declaration more -/

theorem first?_concat (roots : List Root) (r : Root) (k : UnitKey) :
    first? (roots ++ [r]) k = (first? roots k).or (if r.key? = some k then some r else none) := by
  rw [first?, List.find?_append, first?]
  congr 1
  by_cases hk : r.key? = some k <;> simp [hk]

theorem failures_concat (roots : List Root) (r : Root) :
    failures (roots ++ [r]) = failures roots ++ (failure? roots r).toList := by
  have hbefore : roots.mapIdx (fun i x => failure? ((roots ++ [r]).take i) x)
      = roots.mapIdx (fun i x => failure? (roots.take i) x) := by
    refine List.ext_getElem (by simp) ?_
    intro i hi _
    have hlt : i < roots.length := by simpa using hi
    simp [List.take_append_of_le_length (Nat.le_of_lt hlt)]
  rw [failures, List.mapIdx_concat, hbefore, List.filterMap_append, ← failures]
  congr 1
  cases h : failure? roots r <;> simp [h]

end Root

/-! ## The sink -/

namespace MemorySink

variable {s : MemorySink} {u v : GeneratedUnit}

theorem get?_concat (taken : List GeneratedUnit) (u : GeneratedUnit) (k : UnitKey) :
    get? ⟨taken ++ [u]⟩ k = (get? ⟨taken⟩ k).or (if u.key = k then some u else none) := by
  rw [get?, List.find?_append, get?]
  congr 1
  by_cases hk : u.key = k <;> simp [hk]

/-- A unit with a new key is taken. -/
theorem destination_new (h : s.get? u.key = none) :
    MemorySink.destination s u = (none, ⟨s.taken ++ [u]⟩) := by
  have hwrite : s.write u = .ok ⟨s.taken ++ [u]⟩ := by
    rw [write, h]
    rfl
  rw [destination, hwrite]

/-- A unit with a key that was used is refused, and the sink stays as it is. -/
theorem destination_used (h : s.get? u.key = some v) :
    MemorySink.destination s u = (some (.duplicate u.key.toText v.origin.toText), s) := by
  have hwrite : s.write u = .error (.duplicate u.key.toText v.origin.toText) := by
    rw [write, h]
    rfl
  rw [destination, hwrite]

end MemorySink

/-! ## The pass -/

/-- The state of a batch is that of the declarations seen so far. -/
structure Batched (o : EmitOptions) (seen : List Root) (report : Report) (s : MemorySink) :
    Prop where
  held : ∀ k, s.get? k = (Root.first? seen k).bind (Root.unit? o)
  keys : s.taken.map GeneratedUnit.key = report.generated
  generated : report.generated = (seen.filterMap Root.key?).eraseDups
  failures : report.failures = Root.failures seen
  sources : report.sourceErrors = []
  counted : report.generated.length + report.failures.length = seen.length

namespace Batched

variable {o : EmitOptions} {seen : List Root} {report : Report} {s : MemorySink} {r : Root}

theorem empty (o : EmitOptions) : Batched o [] Report.empty MemorySink.empty where
  held _ := rfl
  keys := rfl
  generated := rfl
  failures := rfl
  sources := rfl
  counted := rfl

/-- A key is reported exactly when some declaration has it. -/
theorem mem_generated (h : Batched o seen report s) {k : UnitKey} :
    k ∈ report.generated ↔ ∃ first, Root.first? seen k = some first := by
  rw [h.generated, List.mem_eraseDups, List.mem_filterMap, ← Option.isSome_iff_exists, Root.first?,
    List.find?_isSome]
  simp

/-- The sink has a unit under the key of a declaration, or no declaration has the key. -/
theorem get?_eq (h : Batched o seen report s) (k : UnitKey) :
    (Root.first? seen k = none ∧ s.get? k = none) ∨
    ∃ first d, Root.first? seen k = some first ∧ first.describe = .ok d ∧
      s.get? k = some (d.emit o) := by
  cases hfirst : Root.first? seen k with
  | none =>
      refine Or.inl ⟨rfl, ?_⟩
      rw [h.held, hfirst]
      rfl
  | some first =>
      have hkey : first.key? = some k := by simpa using List.find?_some hfirst
      obtain ⟨⟨d, hd⟩, -⟩ := Root.ok_of_key? hkey
      refine Or.inr ⟨first, d, rfl, hd, ?_⟩
      rw [h.held, hfirst]
      exact Root.unit?_of_ok hd

/-- A declaration fails that has no key or one that another has taken. -/
theorem fail (h : Batched o seen report s) {f : Failure} (hf : Root.failure? seen r = some f)
    (hkey : ∀ k, r.key? = some k → k ∈ report.generated) :
    Batched o (seen ++ [r]) (report.add (.error f)) s where
  held := by
    intro k
    rw [h.held, Root.first?_concat]
    -- where the declaration has the key, another one had it before
    by_cases hk : r.key? = some k
    · obtain ⟨first, hfirst⟩ := h.mem_generated.mp (hkey k hk)
      rw [hfirst, Option.some_or]
    · rw [if_neg hk, Option.or_none]
  keys := h.keys
  generated := by
    show report.generated = _
    rw [List.filterMap_append, h.generated]
    cases hk : r.key? with
    | none => simp [hk]
    | some k =>
        have htaken : k ∈ seen.filterMap Root.key? :=
          List.mem_eraseDups.mp (h.generated ▸ hkey k hk)
        rw [List.filterMap_cons_some hk, List.filterMap_nil, eraseDups_concat_of_mem htaken]
  failures := by
    rw [Root.failures_concat, hf, ← h.failures]
    rfl
  sources := h.sources
  counted := by
    have hcount := h.counted
    simp only [Report.add, List.length_append, List.length_singleton]
    omega

/-- The unit of a declaration with a new key is taken. -/
theorem take (h : Batched o seen report s) {d : StoreDescription} (hd : r.describe = .ok d)
    (hnew : Root.first? seen r.key = none) :
    Batched o (seen ++ [r]) (report.add (.ok (d.emit o))) ⟨s.taken ++ [d.emit o]⟩ where
  held := by
    intro k
    rw [MemorySink.get?_concat, Root.first?_concat, (Root.emit_of_ok hd).1, Root.key?_of_ok hd,
      h.held]
    by_cases hk : r.key = k
    · subst hk
      simp [hnew, Root.unit?_of_ok hd]
    · simp [hk]
  keys := by
    rw [List.map_append, h.keys]
    rfl
  generated := by
    show report.generated ++ [(d.emit o).key] = _
    have hfresh : r.key ∉ seen.filterMap Root.key? := by
      intro hmem
      obtain ⟨first, hfirst⟩ := h.mem_generated.mp (h.generated ▸ List.mem_eraseDups.mpr hmem)
      rw [hnew] at hfirst
      cases hfirst
    rw [List.filterMap_append, List.filterMap_cons_some (Root.key?_of_ok hd), List.filterMap_nil,
      eraseDups_concat_of_not_mem hfresh, ← h.generated, (Root.emit_of_ok hd).1]
  failures := by
    have hnone : Root.failure? seen r = none := by
      simp [Root.failure?, hd, hnew]
    rw [Root.failures_concat, hnone, ← h.failures]
    simp [Report.add]
  sources := h.sources
  counted := by
    have hcount := h.counted
    simp only [Report.add, List.length_append, List.length_singleton]
    omega

/-- **One declaration more.** Delivering it keeps the state that of the declarations seen. -/
theorem step (h : Batched o seen report s) (r : Root) :
    Batched o (seen ++ [r]) (report.add (deliver MemorySink.destination o s r).1)
      (deliver MemorySink.destination o s r).2 := by
  cases hd : r.describe with
  | error f =>
      have hf : Root.failure? seen r = some f := by
        simp [Root.failure?, hd]
      simp only [deliver, hd]
      refine h.fail hf ?_
      intro k hk
      rw [Root.key?_of_error hd] at hk
      cases hk
  | ok d =>
      obtain ⟨hkey, -⟩ := Root.emit_of_ok (o := o) hd
      obtain ⟨-, -, hhome, hroot⟩ := Root.describe_ok hd
      rcases h.get?_eq r.key with ⟨hnew, hget⟩ | ⟨first, d₀, hfirst, hd₀, hget⟩
      · -- no declaration before it has the key
        simp only [deliver, hd, MemorySink.destination_new (hkey ▸ hget)]
        exact h.take hd hnew
      · -- the sink has the unit of the first declaration with the key, and so its origin
        simp only [deliver, hd, MemorySink.destination_used (hkey ▸ hget)]
        refine h.fail ?_ ?_
        · have hname : (d.emit o).name = r.key.name := congrArg UnitKey.name hkey
          rw [(Root.emit_of_ok hd₀).2, hkey, hhome, hroot, hname]
          simp [Root.failure?, hd, hfirst]
        · intro k hk
          obtain rfl : r.key = k := by
            rw [Root.key?_of_ok hd] at hk
            exact Option.some.inj hk
          exact h.mem_generated.mpr ⟨first, hfirst⟩

/-- **A whole batch.** -/
theorem run (h : Batched o seen report s) (rest : List Root) :
    Batched o (seen ++ rest) (deliverAll MemorySink.destination o (report, s) rest).1
      (deliverAll MemorySink.destination o (report, s) rest).2 := by
  induction rest generalizing seen report s with
  | nil =>
      rw [List.append_nil]
      exact h
  | cons r rest ih =>
      rw [List.append_cons]
      exact ih (h.step r)

end Batched

/-- **The first wins.** After a batch into an empty sink in memory the sink has under each key the
    unit of the first declaration with the key, and no unit besides; the report lists the keys of
    the declarations that have a description, each once and in the order of their first
    declarations, and for every other declaration one failure, in order: why it has no description,
    or which origin took its key first. Each failure names its declaration. -/
theorem first_wins (o : EmitOptions) (roots : List Root) :
    let batch := deliverAll MemorySink.destination o (Report.empty, MemorySink.empty) roots
    (∀ k, batch.2.get? k = (Root.first? roots k).bind (Root.unit? o)) ∧
    batch.2.taken.map GeneratedUnit.key = batch.1.generated ∧
    batch.1.generated = (roots.filterMap Root.key?).eraseDups ∧
    batch.1.failures = Root.failures roots ∧
    batch.1.generated.length + batch.1.failures.length = roots.length ∧
    batch.1.sourceErrors = [] ∧
    ∀ before r f, Root.failure? before r = some f → f.home = r.home ∧ f.declaration = r.name := by
  intro batch
  have h : Batched o roots batch.1 batch.2 := (Batched.empty o).run roots
  exact ⟨h.held, h.keys, h.generated, h.failures, h.counted, h.sources,
    fun _ _ _ hf => Root.failure?_names hf⟩

/-- A declaration at the root of the crate, in a file of the sources. -/
def crateDeclaration (name : String) (body : Source.Body) (file : String) : Root :=
  ⟨⟨[], .none, name, false, body⟩, .strictly .crateRoot, ⟨some ⟨file⟩, 0⟩⟩

/-- A pair between two declarations of a point: the second point fails behind the pair, and its
    failure names the file of the first one. -/
theorem first_wins_points :
    let points := crateDeclaration "Point" .unit
    let roots := [points "src/a.rs", crateDeclaration "Pair" .tuple "src/b.rs", points "src/c.rs"]
    let batch := deliverAll MemorySink.destination .module (Report.empty, MemorySink.empty) roots
    let duplicate : Failure := ⟨.crateRoot, "Point", .outputWrite "PointStore"
      (.duplicate (UnitKey.toText ⟨.crateRoot, "PointStore"⟩) "src/a.rs")⟩
    batch.1.generated = [⟨.crateRoot, "PointStore"⟩] ∧
    batch.1.failures = [⟨.crateRoot, "Pair", .missingConstructor .tuple⟩, duplicate] ∧
    duplicate.home = (points "src/c.rs").home ∧ duplicate.declaration = (points "src/c.rs").name := by
  intro points roots batch duplicate
  obtain ⟨-, -, hgenerated, hfailures, -, -, hnames⟩ := first_wins .module roots
  have hduplicate : Root.failure? [points "src/a.rs"] (points "src/c.rs") = some duplicate := rfl
  exact ⟨hgenerated, hfailures, hnames _ _ _ hduplicate⟩

end ObservableStore
