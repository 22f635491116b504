import ObservableStore.Proofs.Split
import ObservableStore.Proofs.Store.History

/-!
# `Proofs.Store.Chain` — the chain of surviving calls is determined, and which calls are on it

`Chain as cs` is defined backwards through the acts. In acts that can have come from a run
(`WellOrdered`: a call starts once, and before it finishes) such a chain is unique (`Chain.unique`).
A chain grows by what happens after it in two ways only: by nothing, when nothing finishes
(`Chain.append_quiet`), and to the chain at a call's start followed by the call, when the call
finishes (`Chain.finish`).

Which calls survive follows from one fact about neighbours on a chain: a call on it had finished
before any later one started (`Chain.pairwise`). So two calls that read the same state are never both
on it. A call whose finish comes before the start of every call that finishes later stays on it
(`Chain.undisturbed`), and where no two calls overlap all of them do (`Chain.eq_finishedCalls`).
-/

namespace ObservableStore.Store

variable {V : Type} {as bs before after : List (Act V)} {cs : List (Call V)} {c d : Call V}

/-! ## Starts and finishes of a list of acts -/

@[simp] theorem startedCalls_append (as bs : List (Act V)) :
    startedCalls (as ++ bs) = startedCalls as ++ startedCalls bs := List.filterMap_append ..

@[simp] theorem finishedCalls_append (as bs : List (Act V)) :
    finishedCalls (as ++ bs) = finishedCalls as ++ finishedCalls bs := List.filterMap_append ..

@[simp] theorem startedCalls_cons_started (c : Call V) (as : List (Act V)) :
    startedCalls (.started c :: as) = c :: startedCalls as := rfl

@[simp] theorem startedCalls_cons_finished (c : Call V) (as : List (Act V)) :
    startedCalls (.finished c :: as) = startedCalls as := rfl

@[simp] theorem finishedCalls_cons_started (c : Call V) (as : List (Act V)) :
    finishedCalls (.started c :: as) = finishedCalls as := rfl

@[simp] theorem finishedCalls_cons_finished (c : Call V) (as : List (Act V)) :
    finishedCalls (.finished c :: as) = c :: finishedCalls as := rfl

@[simp] theorem startedCalls_nil : startedCalls ([] : List (Act V)) = [] := rfl

@[simp] theorem finishedCalls_nil : finishedCalls ([] : List (Act V)) = [] := rfl

theorem mem_startedCalls : c ∈ startedCalls as ↔ Act.started c ∈ as := by
  constructor
  · intro h
    obtain ⟨a, ha, hc⟩ := List.mem_filterMap.mp h
    cases a with
    | started c' => rwa [← Option.some.inj hc]
    | finished c' => cases hc
  · intro h
    exact List.mem_filterMap.mpr ⟨_, h, rfl⟩

theorem mem_finishedCalls : c ∈ finishedCalls as ↔ Act.finished c ∈ as := by
  constructor
  · intro h
    obtain ⟨a, ha, hc⟩ := List.mem_filterMap.mp h
    cases a with
    | started c' => cases hc
    | finished c' => rwa [← Option.some.inj hc]
  · intro h
    exact List.mem_filterMap.mpr ⟨_, h, rfl⟩

theorem finished_not_mem (h : finishedCalls as = []) : Act.finished c ∉ as := by
  intro hc
  rw [← mem_finishedCalls, h] at hc
  cases hc

/-! ## Acts that can come from a run -/

/-- A call starts once, and it finishes only after it has started. -/
structure WellOrdered (as : List (Act V)) : Prop where
  once : (startedCalls as).Nodup
  started_before : ∀ {before after : List (Act V)} {c : Call V},
    as = before ++ .finished c :: after → .started c ∈ before

theorem WellOrdered.nil : WellOrdered ([] : List (Act V)) where
  once := List.nodup_nil
  started_before h := absurd (congrArg List.length h) (by simp)

/-- What happened first was well ordered. -/
theorem WellOrdered.of_append (ho : WellOrdered (as ++ bs)) : WellOrdered as where
  once := (List.nodup_append.mp (startedCalls_append as bs ▸ ho.once)).1
  started_before := by
    rintro before after c rfl
    exact ho.started_before (by rw [List.append_assoc, List.cons_append])

theorem WellOrdered.started (ho : WellOrdered as) (hc : Act.started c ∉ as) :
    WellOrdered (as ++ [.started c]) where
  once := by
    rw [startedCalls_append, startedCalls_cons_started, startedCalls_nil, List.nodup_append]
    refine ⟨ho.once, by simp, ?_⟩
    rintro a ha b hb rfl
    exact hc (List.mem_singleton.mp hb ▸ mem_startedCalls.mp ha)
  started_before := by
    intro before after d h
    rcases split_concat h with ⟨-, -, hd⟩ | ⟨mid, -, hmid⟩
    · cases hd
    · exact ho.started_before hmid

theorem WellOrdered.finished (ho : WellOrdered as) (hc : Act.started c ∈ as) :
    WellOrdered (as ++ [.finished c]) where
  once := by simpa using ho.once
  started_before := by
    intro before after d h
    rcases split_concat h with ⟨-, rfl, hd⟩ | ⟨mid, -, hmid⟩
    · cases hd
      exact hc
    · exact ho.started_before hmid

/-- A call that has finished has started. -/
theorem WellOrdered.started_mem (ho : WellOrdered as) (hc : c ∈ finishedCalls as) :
    Act.started c ∈ as := by
  obtain ⟨before, after, rfl⟩ := List.append_of_mem (mem_finishedCalls.mp hc)
  exact List.mem_append_left _ (ho.started_before rfl)

/-- A call that has started does not start again. -/
theorem WellOrdered.not_again (ho : WellOrdered (as ++ bs)) (hc : Act.started c ∈ as) :
    Act.started c ∉ bs := by
  intro hc'
  have h := ho.once
  rw [startedCalls_append] at h
  exact (List.nodup_append.mp h).2.2 c (mem_startedCalls.mpr hc) c (mem_startedCalls.mpr hc') rfl

/-- Since a call starts once, its start does not occur beside itself. -/
theorem WellOrdered.start_alone (ho : WellOrdered (before ++ .started c :: after)) :
    Act.started c ∉ before ∧ Act.started c ∉ after := by
  refine ⟨?_, ?_⟩
  · intro hc
    exact ho.not_again hc List.mem_cons_self
  · rw [← List.singleton_append, ← List.append_assoc] at ho
    exact ho.not_again (List.mem_append_right _ List.mem_cons_self)

/-- What happened before a call's start is determined. -/
theorem WellOrdered.before_unique {before' after' : List (Act V)} (ho : WellOrdered as)
    (h : as = before ++ .started c :: after) (h' : as = before' ++ .started c :: after') :
    before = before' ∧ after = after' := by
  have hafter := (h ▸ ho).start_alone.2
  have hafter' := (h' ▸ ho).start_alone.2
  obtain ⟨hb, -, ha⟩ := split_unique (h.symm.trans h') hafter hafter'
  exact ⟨hb, ha⟩

/-! ## The chain is unique -/

/-- A chain is empty, or it ends in the last call to finish. -/
theorem Chain.inversion (h : Chain as cs) :
    (cs = [] ∧ finishedCalls as = []) ∨
    ∃ before between after c cs', as = before ++ .started c :: between ++ .finished c :: after ∧
      cs = cs' ++ [c] ∧ Chain before cs' ∧ finishedCalls after = [] := by
  cases h with
  | none h => exact Or.inl ⟨rfl, h⟩
  | last hc h => exact Or.inr ⟨_, _, _, _, _, rfl, rfl, hc, h⟩

/-- **At most one chain.** The acts determine which calls a state is made of. -/
theorem Chain.unique {cs' : List (Call V)} (h : Chain as cs) (ho : WellOrdered as)
    (h' : Chain as cs') : cs = cs' := by
  induction h generalizing cs' with
  | none hq =>
      rcases h'.inversion with ⟨rfl, -⟩ | ⟨b, m, a, c, cs'', rfl, -, -, -⟩
      · rfl
      · simp at hq
  | @last before between after c cs hc hq ih =>
      rcases h'.inversion with ⟨-, hq'⟩ | ⟨b, m, a, c', cs'', has, rfl, hc', hq'⟩
      · simp at hq'
      · -- both end in the last finish of the acts, and the call of that finish started once
        obtain ⟨hinit, hcc, -⟩ := split_unique has (finished_not_mem hq) (finished_not_mem hq')
        cases hcc
        have hinit_ordered : WellOrdered (before ++ .started c :: between) := ho.of_append
        obtain ⟨rfl, -⟩ := hinit_ordered.before_unique rfl hinit
        rw [ih hinit_ordered.of_append hc']

/-! ## How chains grow -/

/-- While nothing finishes, the chain stays as it is. -/
theorem Chain.append_quiet (h : Chain as cs) (hq : finishedCalls bs = []) :
    Chain (as ++ bs) cs := by
  cases h with
  | none h => exact Chain.none (by rw [finishedCalls_append, h, hq, List.append_nil])
  | last hc h =>
      rw [List.append_assoc, List.cons_append]
      exact Chain.last hc (by rw [finishedCalls_append, h, hq, List.append_nil])

/-- When a call finishes, the chain is the one at its start with the call behind it. -/
theorem Chain.finish (h : Chain before cs) (c : Call V) (between : List (Act V)) :
    Chain (before ++ .started c :: between ++ [.finished c]) (cs ++ [c]) :=
  Chain.last h rfl

/-! ## Which calls are on a chain -/

/-- The calls on a chain have finished, in this order. -/
theorem Chain.sublist (h : Chain as cs) : cs.Sublist (finishedCalls as) := by
  induction h with
  | none h => exact List.nil_sublist _
  | @last before between after c cs hc hq ih =>
      have hbefore : cs.Sublist (finishedCalls (before ++ .started c :: between)) := by
        rw [finishedCalls_append]
        exact ih.trans (List.sublist_append_left _ _)
      rw [finishedCalls_append, finishedCalls_cons_finished, hq]
      exact hbefore.append (List.Sublist.refl _)

/-- A call on a chain has finished before a later one on it started. -/
theorem Chain.pairwise (h : Chain as cs) (ho : WellOrdered as) :
    cs.Pairwise fun c d => ∀ before after, as = before ++ .started d :: after →
      c ∈ finishedCalls before := by
  induction h with
  | none h => exact List.Pairwise.nil
  | @last before between after c cs hc hq ih =>
      rw [List.append_assoc, List.cons_append] at ho ⊢
      refine List.pairwise_append.mpr ⟨?_, List.pairwise_singleton _ _, ?_⟩
      · refine (ih ho.of_append).imp_of_mem ?_
        intro d e hd he hde b a has
        -- `e` has started before `c` did, so its start splits the acts before that of `c`
        obtain ⟨p, q, hpq⟩ := List.append_of_mem
          (ho.of_append.started_mem (hc.sublist.subset he))
        have hb : b = p :=
          (ho.before_unique has (by rw [hpq, List.append_assoc, List.cons_append])).1
        exact hb ▸ hde p q hpq
      · intro d hd e he b a has
        cases List.mem_singleton.mp he
        obtain ⟨rfl, -⟩ := ho.before_unique has rfl
        exact hc.sublist.subset hd

/-- Two calls read the same state when nothing finished between their starts. -/
def SameSnapshot (as : List (Act V)) (c d : Call V) : Prop :=
  ∃ before after before' after', as = before ++ .started c :: after ∧
    as = before' ++ .started d :: after' ∧ finishedCalls before = finishedCalls before'

/-- **At most one survives.** Of two calls that read the same state, one is not on the chain. -/
theorem Chain.not_both (h : Chain as cs) (ho : WellOrdered as) (hcd : c ≠ d)
    (hsame : SameSnapshot as c d) : c ∉ cs ∨ d ∉ cs := by
  obtain ⟨b, a, b', a', hc, hd, hfin⟩ := hsame
  by_contra hboth
  simp only [not_or, not_not] at hboth
  have hordered : WellOrdered b := (hc ▸ ho).of_append
  have hordered' : WellOrdered b' := (hd ▸ ho).of_append
  -- the one that comes first on the chain finished before the other started, so before it started
  rcases related_of_mem (h.pairwise ho) hboth.1 hboth.2 hcd with hbefore | hbefore
  · exact (hc ▸ ho).start_alone.1 (hordered.started_mem (hfin ▸ hbefore b' a' hd))
  · exact (hd ▸ ho).start_alone.1 (hordered'.started_mem (hfin ▸ hbefore b a hc))

/-- A call finished, and the calls that finished later started later, too. -/
def Undisturbed (as : List (Act V)) (c : Call V) : Prop :=
  ∃ before after, as = before ++ .finished c :: after ∧
    ∀ d ∈ finishedCalls after, Act.started d ∈ after

/-- A call that stays undisturbed when `d` finishes last was so before `d` started. -/
theorem Undisturbed.of_last {between : List (Act V)}
    (ho : WellOrdered (before ++ .started d :: between ++ .finished d :: after)) (hcd : c ≠ d)
    (hq : finishedCalls after = [])
    (h : Undisturbed (before ++ .started d :: between ++ .finished d :: after) c) :
    Undisturbed before c := by
  obtain ⟨b, a, has, hlater⟩ := h
  have hlast : (finishedCalls b ++ c :: finishedCalls a).getLast? = some d := by
    have hfin := congrArg (fun as => (finishedCalls as).getLast?) has
    simpa [hq] using hfin.symm
  -- `d` finishes after `c`, so it starts after `c` finishes: there the acts before its start end
  have hda : d ∈ finishedCalls a := by
    cases hfa : finishedCalls a with
    | nil =>
        rw [hfa] at hlast
        exact absurd (by simpa using hlast) hcd
    | cons e es =>
        rw [hfa, List.getLast?_append, List.getLast?_cons_cons] at hlast
        exact List.mem_of_getLast? (by simpa using hlast)
  obtain ⟨p, q, hp⟩ := List.append_of_mem (hlater d hda)
  have hsplit : before = b ++ .finished c :: p :=
    (ho.before_unique (by rw [List.append_assoc, List.cons_append])
      (by rw [has, hp, List.append_assoc, List.cons_append])).1
  refine ⟨b, p, hsplit, ?_⟩
  intro e he
  have hea : Act.started e ∈ p ++ .started d :: q := by
    rw [← hp]
    exact hlater e (by simp [hp, he])
  rcases List.mem_append.mp hea with hep | heq
  · exact hep
  · -- `e` has started before `d` did, and does not start again
    have hbefore : WellOrdered before := (List.append_assoc .. ▸ ho).of_append
    have hstarted : Act.started e ∈ before := hbefore.started_mem (by simp [hsplit, he])
    rw [has, hp, ← List.cons_append, ← List.append_assoc, ← hsplit] at ho
    exact absurd heq (ho.not_again hstarted)

/-- **The undisturbed survive.** A call stays on the chain while the calls that finish later also
    start later. -/
theorem Chain.undisturbed (h : Chain as cs) (ho : WellOrdered as) (hc : Undisturbed as c) :
    c ∈ cs := by
  induction h with
  | none h =>
      obtain ⟨b, a, rfl, -⟩ := hc
      simp at h
  | @last before between after d cs _ hq ih =>
      by_cases hcd : c = d
      · subst hcd
        exact List.mem_append_right _ List.mem_cons_self
      · have hordered : WellOrdered before := (List.append_assoc .. ▸ ho).of_append
        exact List.mem_append_left _ (ih hordered (hc.of_last ho hcd hq))

/-- No two calls that finish overlap: nothing finishes between a call's start and its finish. -/
def Apart (as : List (Act V)) : Prop :=
  ∀ before between after c, as = before ++ .started c :: between ++ .finished c :: after →
    finishedCalls between = []

/-- **Without overlaps all survive.** -/
theorem Chain.eq_finishedCalls (h : Chain as cs) (hapart : Apart as) : cs = finishedCalls as := by
  induction h with
  | none h => exact h.symm
  | @last before between after c cs _ hq ih =>
      -- the last call does not overlap, and the calls before it do not either
      have hbetween : finishedCalls between = [] := hapart before between after c rfl
      have hbefore : Apart before := by
        rintro b m a d rfl
        exact hapart b m (a ++ .started c :: between ++ .finished c :: after) d (by simp)
      simp [ih hbefore, hbetween, hq]

end ObservableStore.Store
