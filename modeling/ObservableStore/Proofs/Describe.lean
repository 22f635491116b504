import ObservableStore.Proofs.Scope.Grounded

/-!
# `Proofs.Describe` — what a description keeps of its declaration

A description carries the place and the name of its declaration (`describe_ok`), and so does the
failure where there is none (`describe_error`). The names of its fields are the declared ones
(`fieldNames_of_describe`), none of which is, as it is written, the name of another method of the
wrapper (`fieldNames_free`). The shapes of its fields are those of the declared types
(`shape_of_describe`), so in the scope of a module all their namespaces hold everywhere
(`shapes_global`, `describe_ofItems`).
-/

namespace ObservableStore

/-- The names of the fields that a body is built from. -/
def Source.Body.fieldNames : Source.Body → List String
  | .named fields => fields.map Source.Field.name
  | _ => []

namespace Root

variable {r : Root} {d : StoreDescription}

/-- A description is made of the fields that the body has and of what the declaration says. -/
theorem describe_ok (h : r.describe = .ok d) :
    r.describeBody = .ok d.fields ∧ d.origin = r.origin ∧ d.home = r.home ∧ d.root = r.name := by
  unfold describe at h
  split at h
  · next fields hfields =>
      obtain rfl := Except.ok.inj h
      exact ⟨hfields, rfl, rfl, rfl⟩
  · cases h

/-- A failure to describe names the declaration. -/
theorem describe_error {f : Failure} (h : r.describe = .error f) :
    f.home = r.home ∧ f.declaration = r.name := by
  unfold describe at h
  split at h
  · cases h
  · obtain rfl := Except.error.inj h
    exact ⟨rfl, rfl⟩

/-! ## Fields -/

theorem describeField_ok {f : Source.Field} {fd : FieldDescription}
    (h : r.describeField f = .ok fd) :
    shapeOf ⟨r.home, r.name⟩ r.scope f.type = .ok fd.shape := by
  unfold describeField at h
  split at h
  · cases h
  · split at h
    · next shape hshape =>
        obtain rfl := Except.ok.inj h
        exact hshape
    · cases h

theorem describeFields_ok {fs : List Source.Field} {ds : List FieldDescription}
    (h : r.describeFields fs = .ok ds) :
    ∀ fd ∈ ds, ∃ f ∈ fs, r.describeField f = .ok fd := by
  induction fs generalizing ds with
  | nil =>
      obtain rfl := Except.ok.inj h
      intro fd hfd
      cases hfd
  | cons f rest ih =>
      rw [describeFields] at h
      obtain ⟨first, hfirst, h⟩ := bind_eq_ok.mp h
      obtain ⟨others, hothers, h⟩ := bind_eq_ok.mp h
      obtain rfl := Except.ok.inj h
      intro fd hfd
      rcases List.mem_cons.mp hfd with rfl | hfd
      · exact ⟨f, List.mem_cons_self, hfirst⟩
      · obtain ⟨f', hf', hfd'⟩ := ih hothers fd hfd
        exact ⟨f', List.mem_cons_of_mem f hf', hfd'⟩

/-- The fields of a description are described one by one. -/
theorem describeBody_ok {ds : List FieldDescription} (h : r.describeBody = .ok ds) :
    ∃ fs, fieldsOf r.declaration.body = .ok fs ∧ r.describeFields fs = .ok ds := by
  unfold describeBody at h
  split at h
  · cases h
  split at h
  · cases h
  · next fs hfs =>
      obtain ⟨ds', hds', h⟩ := bind_eq_ok.mp h
      split at h
      · cases h
      · obtain rfl := Except.ok.inj h
        exact ⟨fs, hfs, hds'⟩

/-! ## Names of fields -/

theorem describeField_name {f : Source.Field} {fd : FieldDescription}
    (h : r.describeField f = .ok fd) : fd.name = f.name ∧ f.name ∉ reservedNames := by
  unfold describeField at h
  split at h
  · cases h
  · next hfree =>
      split at h
      · obtain rfl := Except.ok.inj h
        exact ⟨rfl, hfree⟩
      · cases h

theorem describeFields_names {fs : List Source.Field} {ds : List FieldDescription}
    (h : r.describeFields fs = .ok ds) :
    ds.map FieldDescription.name = fs.map Source.Field.name := by
  induction fs generalizing ds with
  | nil =>
      obtain rfl := Except.ok.inj h
      rfl
  | cons f rest ih =>
      rw [describeFields] at h
      obtain ⟨first, hfirst, h⟩ := bind_eq_ok.mp h
      obtain ⟨others, hothers, h⟩ := bind_eq_ok.mp h
      obtain rfl := Except.ok.inj h
      rw [List.map_cons, List.map_cons, (describeField_name hfirst).1, ih hothers]

/-- No field of a description has the name of an awaiting mutator. -/
theorem describeBody_separate {ds : List FieldDescription} (h : r.describeBody = .ok ds) :
    mutatorCollision? ds = none := by
  unfold describeBody at h
  split at h
  · cases h
  split at h
  · cases h
  · obtain ⟨ds', -, h⟩ := bind_eq_ok.mp h
    split at h
    · cases h
    · next hnone =>
        obtain rfl := Except.ok.inj h
        exact hnone

/-- The fields of a description have the declared names, in order. -/
theorem fieldNames_of_describe (h : r.describe = .ok d) :
    d.fields.map FieldDescription.name = r.declaration.body.fieldNames := by
  obtain ⟨fs, hfs, hds⟩ := describeBody_ok (describe_ok h).1
  rw [describeFields_names hds]
  cases hbody : r.declaration.body with
  | named fields =>
      rw [hbody] at hfs
      obtain rfl := Except.ok.inj hfs
      rfl
  | unit =>
      rw [hbody] at hfs
      obtain rfl := Except.ok.inj hfs
      rfl
  | _ =>
      rw [hbody] at hfs
      cases hfs

/-- **No field of a described root is written like another method**: neither like the accessor nor
    like an awaiting mutator. -/
theorem fieldNames_free (h : r.describe = .ok d) {name : String}
    (hname : name ∈ r.declaration.body.fieldNames) :
    name ∉ reservedNames ∧ ∀ other ∈ r.declaration.body.fieldNames,
      name ≠ awaitingMutatorName other := by
  obtain ⟨fs, -, hds⟩ := describeBody_ok (describe_ok h).1
  rw [← fieldNames_of_describe h] at hname ⊢
  obtain ⟨fd, hfd, rfl⟩ := List.mem_map.mp hname
  refine ⟨?_, ?_⟩
  · obtain ⟨f, -, hf⟩ := describeFields_ok hds fd hfd
    obtain ⟨hn, hfree⟩ := describeField_name hf
    exact hn ▸ hfree
  · intro other hother heq
    obtain ⟨g, hg, rfl⟩ := List.mem_map.mp hother
    have hnone := List.find?_eq_none.mp (describeBody_separate (describe_ok h).1) fd hfd
    exact hnone (List.any_eq_true.mpr ⟨g, hg, beq_iff_eq.mpr heq.symm⟩)

/-! ## Types of fields -/

/-- The shape of a described field is the shape of a declared type. -/
theorem shape_of_describe (h : r.describe = .ok d) {fd : FieldDescription} (hfd : fd ∈ d.fields) :
    ∃ t, shapeOf ⟨r.home, r.name⟩ r.scope t = .ok fd.shape := by
  obtain ⟨fs, -, hfs⟩ := describeBody_ok (describe_ok h).1
  obtain ⟨f, -, hf⟩ := describeFields_ok hfs fd hfd
  exact ⟨f.type, describeField_ok hf⟩

/-- **All types of a description hold everywhere**, where its scope is grounded. -/
theorem shapes_global {home : Namespace} (hs : r.scope.Grounded home) (h : r.describe = .ok d) :
    ∀ s ∈ d.fields.flatMap (fun f => f.shape.walk), s.home.Global := by
  intro s hmem
  obtain ⟨fd, hfd, hwalk⟩ := List.mem_flatMap.mp hmem
  obtain ⟨t, ht⟩ := shape_of_describe h hfd
  exact global_of_shapeOf hs hs.home_global t ht s hwalk

/-- A root in a module of the crate that is described in the scope of that module lives there, and all
    its namespaces hold everywhere. -/
theorem describe_ofItems {rest : List String} {items : List Source.Item}
    {declaration : Source.Declaration} {origin : Origin} (h : Root.describe
      ⟨declaration, .ofItems (.ofSegments ("crate" :: rest)) items, origin⟩ = .ok d) :
    d.home = .ofSegments ("crate" :: rest) ∧ d.root = declaration.name ∧ d.home.Global ∧
      ∀ s ∈ d.fields.flatMap (fun f => f.shape.walk), s.home.Global := by
  have hscope := Scope.grounded_ofItems (Namespace.global_ofSegments (List.cons_ne_nil "crate" rest))
    items
  obtain ⟨-, -, hhome, hroot⟩ := describe_ok h
  have hd : d.home = .ofSegments ("crate" :: rest) := hhome.trans hscope.here
  exact ⟨hd, hroot, hd ▸ hscope.everywhere, shapes_global hscope h⟩

end Root

end ObservableStore
