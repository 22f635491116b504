import ObservableStore.Proofs.Sink.Output
import ObservableStore.Proofs.Sink.Refinement

/-!
# `Proofs.Sink.Rejected` — a write that is refused leaves no trace

A sink checks a unit, looks at the file, makes the directories and writes, and records the unit last.
So a write that is refused on the way has recorded nothing, whatever it left in the tree
(`refused_leaves_no_trace`). The check is the only part of a write that reads the record. After a
refused write the sink therefore gives the units that follow the verdicts that they get without it,
but for faults of the file system: where a verdict is another one, a file operation failed for this
unit in one of the two runs, or an earlier unit with its key or its place got another verdict already.

Shape of the argument. Two sinks agree but for some units if a key or a place that is none of these
units' is recorded in both or in neither (`AgreeBut`). They give a unit the same verdict unless one of
the writes fails on its tree or it shares a key or a place with one of those units
(`AgreeBut.verdict`), and then agree but for it as well (`AgreeBut.write`). Over the units that follow
this is an induction (`agree_after`).
-/

namespace ObservableStore

open FileTree

/-! ## Verdicts -/

/-- How a write ends. Which fault the file system reported does not count. -/
inductive Verdict where
  | taken
  /-- The unit was refused by the check. -/
  | refused (e : SinkError)
  /-- A file operation failed. -/
  | fault
deriving DecidableEq, Repr

namespace Verdict

/-- The verdict in an answer of a sink. -/
def of : Option SinkError → Verdict
  | none => .taken
  | some (.file _) => .fault
  | some e => .refused e

theorem of_eq_fault {a : Option SinkError} : of a = .fault ↔ ∃ fault, a = some (.file fault) := by
  rcases a with _ | e
  · simp [of]
  · cases e <;> simp [of]

/-- An answer that is no fault of the file system is its verdict. -/
theorem of_inj {a b : Option SinkError} (h : of a = of b) (ha : of a ≠ .fault) : a = b := by
  have hb : of b ≠ .fault := h ▸ ha
  rcases a with _ | e <;> rcases b with _ | e'
  · rfl
  · cases e' <;> simp [of] at h
  · cases e <;> simp [of] at h
  · cases e <;> cases e' <;> simp_all [of]

end Verdict

namespace DirectorySink

variable {s s' : DirectorySink} {t t' : FileTree} {u v w : GeneratedUnit}
variable {st st' : DirectorySink × FileTree} {apart apart' : GeneratedUnit → Prop}
variable {taken earlier : List GeneratedUnit}

/-- The check itself does not touch the file system. -/
theorem not_file_of_check {e : SinkError} (h : s.check u = .error e) (fault : FileFault) :
    e ≠ .file fault := by
  rintro rfl
  rw [check] at h
  cases hkey : s.written.lookup u.key with
  | some origin =>
      rw [hkey] at h
      cases h
  | none =>
      rw [hkey] at h
      cases hplace : s.placed? u.relativePath with
      | some first =>
          rw [hplace] at h
          cases h
      | none =>
          rw [hplace] at h
          cases h

theorem verdict_of_check_error {e : SinkError} (h : s.check u = .error e) (t : FileTree) :
    Verdict.of (s.write t u).1 = .refused e := by
  rw [write_of_check_error h]
  cases e with
  | duplicate key firstOrigin => rfl
  | collision path key firstKey => rfl
  | file fault => exact absurd rfl (not_file_of_check h fault)

theorem verdict_of_check_ok (h : s.check u = .ok ()) (t : FileTree) :
    Verdict.of (s.write t u).1 = .taken ∨ Verdict.of (s.write t u).1 = .fault := by
  cases hanswer : (s.write t u).1 with
  | none => exact Or.inl rfl
  | some e =>
      obtain ⟨fault, rfl⟩ := refused_of_check_ok h hanswer
      exact Or.inr rfl

/-- A unit is recorded just if the verdict is that it is taken. -/
theorem sink_of_verdict (s : DirectorySink) (t : FileTree) (u : GeneratedUnit) :
    (Verdict.of (s.write t u).1 = .taken ∧ ∃ wasThere, (s.write t u).2.1 = s.record u wasThere) ∨
    (Verdict.of (s.write t u).1 ≠ .taken ∧ (s.write t u).2.1 = s) := by
  rcases write_sink s t u with ⟨e, t', hwrite⟩ | ⟨wasThere, t', hwrite⟩
  · rw [hwrite]
    refine Or.inr ⟨?_, rfl⟩
    cases e <;> simp [Verdict.of]
  · rw [hwrite]
    exact Or.inl ⟨rfl, wasThere, rfl⟩

/-! ## What is recorded under a key and at a place -/

theorem lookup_record (s : DirectorySink) (u : GeneratedUnit) (wasThere : Bool) (k : UnitKey) :
    (s.record u wasThere).written.lookup k =
      (s.written.lookup k).or (if u.key = k then some u.origin else none) := by
  show (s.written ++ [(u.key, u.origin)]).lookup k = _
  rw [List.lookup_append, List.lookup_cons, List.lookup_nil]
  by_cases hk : u.key = k
  · simp [hk]
  · have hne : (k == u.key) = false := by simpa using Ne.symm hk
    rw [hne, if_neg hk]

theorem placed?_record (s : DirectorySink) (u : GeneratedUnit) (wasThere : Bool) (l : Location) :
    (s.record u wasThere).placed? l =
      (s.placed? l).or (if u.relativePath.same l then some u.key else none) := by
  show ((s.places ++ [(u.relativePath, u.key)]).find? _).map Prod.snd = _
  rw [List.find?_append, Option.map_or, List.find?_singleton, placed?]
  by_cases hl : u.relativePath.same l = true
  · simp [hl]
  · simp [hl]

/-! ## Two sinks that agree but for some units -/

/-- What two sinks have recorded under a key or at a place is the same, unless the key or the place
    is that of a unit in `apart`. -/
structure AgreeBut (apart : GeneratedUnit → Prop) (s s' : DirectorySink) : Prop where
  keys : ∀ k, (∀ w, apart w → w.key ≠ k) → s'.written.lookup k = s.written.lookup k
  places : ∀ l, (∀ w, apart w → w.relativePath.same l = false) → s'.placed? l = s.placed? l

/-- Two units have the same key or the same place. -/
def Rivals (w u : GeneratedUnit) : Prop := w.key = u.key ∨ w.relativePath.same u.relativePath = true

namespace AgreeBut

theorem refl (apart : GeneratedUnit → Prop) (s : DirectorySink) : AgreeBut apart s s :=
  ⟨fun _ _ => rfl, fun _ _ => rfl⟩

theorem mono (h : AgreeBut apart s s') (hmore : ∀ w, apart w → apart' w) : AgreeBut apart' s s' :=
  ⟨fun k hk => h.keys k fun w hw => hk w (hmore w hw),
    fun l hl => h.places l fun w hw => hl w (hmore w hw)⟩

theorem symm (h : AgreeBut apart s s') : AgreeBut apart s' s :=
  ⟨fun k hk => (h.keys k hk).symm, fun l hl => (h.places l hl).symm⟩

/-- Recording a unit in one sink sets them apart at this unit at most. -/
theorem record_right (h : AgreeBut apart s s') (hu : apart u) (wasThere : Bool) :
    AgreeBut apart s (s'.record u wasThere) where
  keys k hk := by rw [lookup_record, if_neg (hk u hu), Option.or_none, h.keys k hk]
  places l hl := by
    rw [placed?_record, hl u hu, if_neg Bool.false_ne_true, Option.or_none, h.places l hl]

theorem record_left (h : AgreeBut apart s s') (hu : apart u) (wasThere : Bool) :
    AgreeBut apart (s.record u wasThere) s' :=
  (h.symm.record_right hu wasThere).symm

theorem record_both (h : AgreeBut apart s s') (u : GeneratedUnit) (wasThere wasThere' : Bool) :
    AgreeBut apart (s.record u wasThere) (s'.record u wasThere') where
  keys k hk := by rw [lookup_record, lookup_record, h.keys k hk]
  places l hl := by rw [placed?_record, placed?_record, h.places l hl]

/-- **The verdicts of both on one unit** are the same, unless a file operation failed or the unit
    shares its key or its place with one for which the sinks may differ. -/
theorem verdict (h : AgreeBut apart s s') (t t' : FileTree) (u : GeneratedUnit) :
    Verdict.of (s'.write t' u).1 = Verdict.of (s.write t u).1 ∨
      Verdict.of (s'.write t' u).1 = .fault ∨ Verdict.of (s.write t u).1 = .fault ∨
      ∃ w, apart w ∧ Rivals w u := by
  by_cases hrival : ∃ w, apart w ∧ Rivals w u
  · exact Or.inr (Or.inr (Or.inr hrival))
  · have hkey := h.keys u.key fun w hw heq => hrival ⟨w, hw, Or.inl heq⟩
    have hplace := h.places u.relativePath fun w hw =>
      Bool.eq_false_iff.mpr fun heq => hrival ⟨w, hw, Or.inr heq⟩
    have hsame : s'.check u = s.check u := by rw [check, check, hkey, hplace]
    cases hcheck : s.check u with
    | error e =>
        left
        rw [verdict_of_check_error hcheck, verdict_of_check_error (hsame.trans hcheck)]
    | ok =>
        rcases verdict_of_check_ok hcheck t with hv | hv
        · rcases verdict_of_check_ok (hsame.trans hcheck) t' with hv' | hv'
          · exact Or.inl (hv'.trans hv.symm)
          · exact Or.inr (Or.inl hv')
        · exact Or.inr (Or.inr (Or.inl hv))

/-- **One write of both.** -/
theorem write (h : AgreeBut apart s s') (t t' : FileTree)
    (hu : Verdict.of (s'.write t' u).1 ≠ Verdict.of (s.write t u).1 → apart u) :
    AgreeBut apart (s.write t u).2.1 (s'.write t' u).2.1 := by
  rcases sink_of_verdict s t u with ⟨hv, wasThere, hs⟩ | ⟨hv, hs⟩ <;>
    rcases sink_of_verdict s' t' u with ⟨hv', wasThere', hs'⟩ | ⟨hv', hs'⟩ <;> rw [hs, hs']
  · exact h.record_both u wasThere wasThere'
  · exact h.record_left (hu fun heq => hv' (heq.trans hv)) wasThere
  · exact h.record_right (hu fun heq => hv (heq.symm.trans hv')) wasThere'
  · exact h

end AgreeBut

/-! ## The units that follow -/

/-- The verdict on a unit that is written to a directory after others. -/
def verdictAfter (st : DirectorySink × FileTree) (earlier : List GeneratedUnit) (u : GeneratedUnit) :
    Verdict :=
  Verdict.of (destination (writeEach destination st earlier).2 u).1

theorem writeEach_concat {σ : Type} (sink : Destination σ) (st : σ) (us : List GeneratedUnit)
    (u : GeneratedUnit) :
    (writeEach sink st (us ++ [u])).2 = (sink (writeEach sink st us).2 u).2 := by
  induction us generalizing st with
  | nil => rfl
  | cons v rest ih => exact ih (sink st v).2

theorem destination_eq (st : DirectorySink × FileTree) (u : GeneratedUnit) :
    destination st u = st.1.write st.2 u := rfl

/-- Two runs of the same units gave one of them different verdicts. -/
def Parted (st st' : DirectorySink × FileTree) (us : List GeneratedUnit) (w : GeneratedUnit) : Prop :=
  ∃ front back, us = front ++ w :: back ∧ verdictAfter st' front w ≠ verdictAfter st front w

/-- After any units the two sinks agree but for those whose verdicts were different. -/
theorem agree_after (h : AgreeBut (Parted st st' []) st.1 st'.1) (us : List GeneratedUnit) :
    AgreeBut (Parted st st' us) (writeEach destination st us).2.1
      (writeEach destination st' us).2.1 := by
  -- the induction is on the units from their end, where one more unit is written by both
  induction us using List.reverseRecOn with
  | nil => exact h
  | append_singleton us u ih =>
      rw [writeEach_concat, writeEach_concat, destination_eq, destination_eq]
      have hmore : ∀ w, Parted st st' us w → Parted st st' (us ++ [u]) w := by
        rintro w ⟨front, back, rfl, hne⟩
        exact ⟨front, back ++ [u], by simp, hne⟩
      refine (ih.mono hmore).write _ _ fun hne => ⟨us, [], rfl, ?_⟩
      rwa [verdictAfter, verdictAfter, destination_eq, destination_eq]

/-- **Where verdicts come apart.** -/
theorem verdict_after (h : AgreeBut (Parted st st' []) st.1 st'.1) (earlier : List GeneratedUnit)
    (v : GeneratedUnit) :
    verdictAfter st' earlier v = verdictAfter st earlier v ∨
      verdictAfter st' earlier v = .fault ∨ verdictAfter st earlier v = .fault ∨
      ∃ w, Parted st st' earlier w ∧ Rivals w v := by
  rw [verdictAfter, verdictAfter, destination_eq, destination_eq]
  exact (agree_after h earlier).verdict _ _ v

/-- Where no file operation fails, the answers are the same. -/
theorem AgreeBut.answers (h : AgreeBut (fun _ => False) s s') {us : List GeneratedUnit}
    (hleft : ∀ fault, some (.file fault) ∉ (writeEach destination (s, t) us).1)
    (hright : ∀ fault, some (.file fault) ∉ (writeEach destination (s', t') us).1) :
    (writeEach destination (s', t') us).1 = (writeEach destination (s, t) us).1 := by
  induction us generalizing s s' t t' with
  | nil => rfl
  | cons u rest ih =>
      rw [writeEach_cons, destination_eq] at hleft hright ⊢
      rw [writeEach_cons, destination_eq]
      have hnone : Verdict.of (s.write t u).1 ≠ .fault := by
        intro hfault
        obtain ⟨fault, heq⟩ := Verdict.of_eq_fault.mp hfault
        exact hleft fault (heq ▸ List.mem_cons_self)
      have hnone' : Verdict.of (s'.write t' u).1 ≠ .fault := by
        intro hfault
        obtain ⟨fault, heq⟩ := Verdict.of_eq_fault.mp hfault
        exact hright fault (heq ▸ List.mem_cons_self)
      have hsame : Verdict.of (s'.write t' u).1 = Verdict.of (s.write t u).1 := by
        rcases h.verdict t t' u with hsame | hfault | hfault | ⟨w, hw, -⟩
        · exact hsame
        · exact absurd hfault hnone'
        · exact absurd hfault hnone
        · exact hw.elim
      have hnext := h.write t t' fun hne => hne hsame
      have hrest := ih hnext (fun fault hmem => hleft fault (List.mem_cons_of_mem _ hmem))
        fun fault hmem => hright fault (List.mem_cons_of_mem _ hmem)
      exact congrArg₂ List.cons (Verdict.of_inj hsame hnone') hrest

/-! ## A batch -/

theorem Recorded.writeEach (h : Recorded s t taken) {us : List GeneratedUnit}
    (hus : ∀ u ∈ us, u.Ordinary) :
    ∃ taken', Recorded (writeEach destination (s, t) us).2.1
      (writeEach destination (s, t) us).2.2 taken' := by
  induction us generalizing s t taken with
  | nil => exact ⟨taken, h⟩
  | cons u rest ih =>
      have hrest : ∀ v ∈ rest, v.Ordinary := fun v hv => hus v (List.mem_cons_of_mem u hv)
      rw [writeEach_cons, destination_eq]
      rcases h.write (hus u List.mem_cons_self) with
        ⟨e, t', hwrite, hrecorded⟩ | ⟨wasThere, t', hwrite, hrecorded⟩
      · rw [hwrite]
        exact ih hrecorded hrest
      · rw [hwrite]
        exact ih hrecorded hrest

/-- What passed the check has a key and a place that are new. -/
theorem new_of_check (h : s.check u = .ok ()) :
    u.key ∉ s.written.map Prod.fst ∧ ∀ place ∈ s.places, place.1.same u.relativePath = false := by
  obtain ⟨hkey, hplace⟩ := check_eq_ok.mp h
  constructor
  · intro hmem
    obtain ⟨entry, hentry, heq⟩ := List.mem_map.mp hmem
    have hne := List.lookup_eq_none_iff.mp hkey entry hentry
    rw [heq] at hne
    simp at hne
  · intro place hmem
    exact Bool.eq_false_iff.mpr
      (List.find?_eq_none.mp (Option.map_eq_none_iff.mp hplace) place hmem)

theorem holds_iff {l : Location} {text : String} :
    holds t l text = true ↔ t.readText l = .ok text := by
  refine ⟨readText_of_holds, fun h => ?_⟩
  rw [holds, h]
  exact beq_self_eq_true text

/-- A unit that is taken passed the check and was recorded, as one that was there if its file held
    its text. -/
theorem record_of_taken (hwrite : s.write t u = (none, s', t')) :
    s.check u = .ok () ∧ s' = s.record u (holds t (s.pathOf u) u.source) := by
  rw [write] at hwrite
  cases hcheck : s.check u with
  | error e =>
      rw [hcheck] at hwrite
      cases hwrite
  | ok =>
      rw [hcheck] at hwrite
      refine ⟨rfl, ?_⟩
      by_cases hholds : holds t (s.pathOf u) u.source = true
      · simp only [hholds, if_true] at hwrite ⊢
        exact (congrArg (·.2.1) hwrite).symm
      · rw [Bool.not_eq_true] at hholds
        simp only [hholds, Bool.false_eq_true, if_false] at hwrite ⊢
        cases hstore : t.store (s.pathOf u) u.source with
        | mk fault t₁ =>
            rw [hstore] at hwrite
            cases fault with
            | some fault => cases hwrite
            | none => exact (congrArg (·.2.1) hwrite).symm

/-- **A refused write leaves no trace.** Write any ordinary units to a new sink, on any tree, and then
    one more. If this one is refused then the sink is as before. So is the tree, if it was the check
    that refused the unit; and if a file operation failed, no file has come or changed, and those that
    are recorded can be read as before. A unit that follows gets the verdict that it gets without the
    refused one, unless a file operation fails for it in one of the two runs, or for an earlier one
    of the units that follow, with its key or its place, the verdicts were different already. So the
    answers are the same if no file operation fails. If the unit is taken then its key and its place
    are new and are added, and it is counted as unchanged just if its file held its text. -/
theorem refused_leaves_no_trace (root : Location) (before : FileTree) (us : List GeneratedUnit)
    (hus : ∀ v ∈ us, v.Ordinary) (u : GeneratedUnit) (hu : u.Ordinary) :
    let s := (writeEach destination (new root, before) us).2.1
    let t := (writeEach destination (new root, before) us).2.2
    (∀ e s' t', s.write t u = (some e, s', t') →
      s' = s ∧ ((∀ fault, e ≠ .file fault) → t' = t) ∧
      (∀ p contents, t'.find? p = some (.file contents) ↔ t.find? p = some (.file contents)) ∧
      (∀ place ∈ s.places, ∃ text, t.readText (root.join place.1) = .ok text ∧
        t'.readText (root.join place.1) = .ok text) ∧
      (∀ earlier v, verdictAfter (s, t') earlier v = verdictAfter (s, t) earlier v ∨
        verdictAfter (s, t') earlier v = .fault ∨ verdictAfter (s, t) earlier v = .fault ∨
        ∃ w, Parted (s, t) (s, t') earlier w ∧ Rivals w v) ∧
      ∀ later, (∀ fault, some (.file fault) ∉ (writeEach destination (s, t) later).1) →
        (∀ fault, some (.file fault) ∉ (writeEach destination (s, t') later).1) →
        (writeEach destination (s, t') later).1 = (writeEach destination (s, t) later).1) ∧
    ∀ s' t', s.write t u = (none, s', t') →
      (u.key ∉ s.written.map Prod.fst ∧ s'.written = s.written ++ [(u.key, u.origin)]) ∧
      ((∀ place ∈ s.places, place.1.same u.relativePath = false) ∧
        s'.places = s.places ++ [(u.relativePath, u.key)]) ∧
      (t.readText (root.join u.relativePath) = .ok u.source → s'.unchanged = s.unchanged + 1) ∧
      (t.readText (root.join u.relativePath) ≠ .ok u.source → s'.unchanged = s.unchanged) := by
  intro s t
  obtain ⟨taken, hrecorded⟩ := (Recorded.new root before).writeEach hus
  have hroot : s.root = root := writeEach_root (new root) before us
  refine ⟨?_, ?_⟩
  · intro e s' t' hwrite
    have hsink : s' = s ∧ ChangesOnly [] t t' := by
      rcases write_cases s t hu with ⟨e', t₁, hcase, honly⟩ | ⟨wasThere, t₁, p, hcase, -⟩
      · rw [hcase] at hwrite
        cases hwrite
        exact ⟨rfl, honly⟩
      · rw [hcase] at hwrite
        cases hwrite
    obtain ⟨hsame, honly⟩ := hsink
    refine ⟨hsame, ?_, ?_, ?_, ?_, ?_⟩
    · intro hcheck
      cases hc : s.check u with
      | error e' =>
          rw [write_of_check_error hc] at hwrite
          exact (congrArg (·.2.2) hwrite).symm
      | ok =>
          -- only a file operation refuses what passed the check
          obtain ⟨fault, rfl⟩ := refused_of_check_ok hc (congrArg Prod.fst hwrite)
          exact absurd rfl (hcheck fault)
    · exact fun p contents => honly.files_iff List.not_mem_nil contents
    · intro place hplace
      obtain ⟨w, hw, rfl⟩ := List.mem_map.mp (hrecorded.places ▸ hplace)
      have hheld := hrecorded.held w hw
      rw [pathOf, hroot] at hheld
      exact ⟨w.source, hheld, honly.toKeepsBut.readText hheld fun _ _ => List.not_mem_nil⟩
    · have hagree : AgreeBut (Parted (s, t) (s, t') []) s s := .refl _ s
      exact fun earlier v => verdict_after hagree earlier v
    · exact fun later hleft hright => AgreeBut.answers (.refl _ s) hleft hright
  · intro s' t' hwrite
    obtain ⟨hcheck, rfl⟩ := record_of_taken hwrite
    obtain ⟨hkey, hplace⟩ := new_of_check hcheck
    have hpath : s.pathOf u = root.join u.relativePath := by rw [pathOf, hroot]
    refine ⟨⟨hkey, rfl⟩, ⟨hplace, rfl⟩, ?_, ?_⟩
    · intro hheld
      rw [hpath, holds_iff.mpr hheld]
      rfl
    · intro hother
      have hholds : holds t (root.join u.relativePath) u.source = false :=
        Bool.eq_false_iff.mpr fun h => hother (holds_iff.mp h)
      rw [hpath, hholds]
      rfl

/-- A unit that needs a directory where a file was written is refused by the file system. The file
    stays, and a unit that follows is taken as it is without the refused one. -/
theorem refused_leaves_no_trace_blocked :
    let unit (segments : List String) (file text : String) : GeneratedUnit :=
      ⟨.ofSegments segments, file, file, text, .detached⟩
    let first := unit ["crate"] "a_store.rs" "first"
    let blocked := unit ["crate", "a_store.rs"] "b_store.rs" "second"
    let third := unit ["crate"] "b_store.rs" "third"
    let before := FileTree.directory [("out", .directory [("a_store.rs", .file (.text "before"))])]
    let s := (writeEach destination (new ⟨"out"⟩, before) [first]).2.1
    let t := (writeEach destination (new ⟨"out"⟩, before) [first]).2.2
    let t' := (s.write t blocked).2.2
    (first.Ordinary ∧ blocked.Ordinary) ∧ Verdict.of (s.write t blocked).1 = .fault ∧
      (s.write t blocked).2.1 = s ∧ t'.readText ⟨"out/a_store.rs"⟩ = .ok "first" ∧
      (writeEach destination (s, t') [third]).1 = [none] := by
  intro unit first blocked third before s t t'
  have hfirst : ∀ v ∈ [first], v.Ordinary := by decide
  have hblocked : blocked.Ordinary := by decide
  have hfault : Verdict.of (s.write t blocked).1 = .fault := by decide +kernel
  obtain ⟨fault, hanswer⟩ := Verdict.of_eq_fault.mp hfault
  obtain ⟨hrefused, -⟩ := refused_leaves_no_trace ⟨"out"⟩ before [first] hfirst blocked hblocked
  have hwrite : s.write t blocked = (some (.file fault), (s.write t blocked).2.1, t') := by
    rw [← hanswer]
  obtain ⟨hsink, -, -, hheld, -, hlater⟩ := hrefused (.file fault) _ t' hwrite
  refine ⟨⟨hfirst first List.mem_cons_self, hblocked⟩, hfault, hsink, ?_, ?_⟩
  · have hplace : (first.relativePath, first.key) ∈ s.places := by decide +kernel
    obtain ⟨text, hbefore, hafter⟩ := hheld _ hplace
    have hpath : Location.join ⟨"out"⟩ first.relativePath = ⟨"out/a_store.rs"⟩ := by decide
    have htext : t.readText ⟨"out/a_store.rs"⟩ = .ok "first" := by decide +kernel
    rw [hpath] at hbefore hafter
    rw [hafter, ← hbefore, htext]
  · have hwithout : (writeEach destination (s, t) [third]).1 = [none] := by decide +kernel
    have hwith : (writeEach destination (s, t') [third]).1 = [none] := by decide +kernel
    have hnone : ∀ fault, some (SinkError.file fault) ∉ [none] := by simp
    exact (hlater [third] (hwithout ▸ hnone) (hwith ▸ hnone)).trans hwithout

end DirectorySink

end ObservableStore
