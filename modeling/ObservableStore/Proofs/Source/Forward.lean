import ObservableStore.Source.File

/-!
# `Proofs.Source.Forward` — readers only go forward

What a reader leaves is an end of the tokens that there were (`Forward`). All readers are made of
such readers, so for a rule of the grammar the fact is found from its parts. It is stated for the
rules of types and of what stands in front of the fields of a declaration; what stands in groups
does not matter to it.
-/

namespace ObservableStore.Source

/-- A sequence of readers that succeeds has succeeded at both parts. -/
theorem Reader.bind_eq_some {α β : Type} {r : Reader α} {f : α → Reader β} {c c' : Cursor} {b : β} :
    (r >>= f) c = some (b, c') ↔ ∃ a mid, r c = some (a, mid) ∧ f a mid = some (b, c') := by
  refine Option.bind_eq_some_iff.trans ⟨?_, ?_⟩
  · rintro ⟨⟨a, mid⟩, hfirst, hthen⟩
    exact ⟨a, mid, hfirst, hthen⟩
  · rintro ⟨a, mid, hfirst, hthen⟩
    exact ⟨(a, mid), hfirst, hthen⟩

/-- A reader that leaves an end of the tokens that there were. -/
class Forward {α : Type} (r : Reader α) : Prop where
  suffix : ∀ {c c' : Cursor} {a : α}, r c = some (a, c') → c'.rest <:+ c.rest

namespace Forward

open Reader

variable {α β : Type}

/-! ## Composition -/

instance pure (a : α) : Forward (Pure.pure a : Reader α) where
  suffix h := by
    obtain ⟨-, rfl⟩ := Prod.mk.inj (Option.some.inj h)
    exact List.suffix_rfl

instance bind {r : Reader α} {f : α → Reader β} [hr : Forward r] [hf : ∀ a, Forward (f a)] :
    Forward (r >>= f) where
  suffix {c c'} b h := by
    obtain ⟨a, mid, hfirst, hthen⟩ := Reader.bind_eq_some.mp h
    exact ((hf a).suffix hthen).trans (hr.suffix hfirst)

instance ite {p : Prop} [Decidable p] {r s : Reader α} [hr : Forward r] [hs : Forward s] :
    Forward (if p then r else s) := by
  split
  · exact hr
  · exact hs

/-- Looking at the tokens left. -/
theorem of_same {r : Reader α} (h : ∀ {c c' a}, r c = some (a, c') → c' = c) : Forward r where
  suffix hr := by
    obtain rfl := h hr
    exact List.suffix_rfl

instance view (f : Cursor → α) : Forward (fun c => some (f c, c) : Reader α) :=
  of_same fun h => (Prod.mk.inj (Option.some.inj h)).2.symm

instance refuse : Forward (Reader.refuse : Reader α) := ⟨fun h => by cases h⟩

instance ahead (p : List Token → Bool) : Forward (Reader.ahead p) :=
  of_same fun h => (Prod.mk.inj (Option.some.inj h)).2.symm

instance require (p : List Token → Bool) : Forward (Reader.require p) := by
  refine of_same fun {c c' a} h => ?_
  unfold Reader.require at h
  split at h
  · exact (Prod.mk.inj (Option.some.inj h)).2.symm
  · cases h

instance atEnd : Forward Reader.atEnd := ahead _

instance tryAhead (r : Reader α) : Forward (Reader.tryAhead r) :=
  of_same fun h => (Prod.mk.inj (Option.some.inj h)).2.symm

/-! ## Single tokens and groups -/

instance anyWord : Forward Reader.anyWord where
  suffix {c c' a} h := by
    unfold Reader.anyWord at h
    split at h
    · next heq =>
        obtain ⟨-, rfl⟩ := Prod.mk.inj (Option.some.inj h)
        rw [heq]
        exact List.suffix_cons _ _
    · cases h

instance word (w : String) : Forward (Reader.word w) := by
  unfold Reader.word
  infer_instance

instance name : Forward Reader.name := by
  unfold Reader.name
  infer_instance

/-- What follows an operator is an end of the tokens. -/
theorem operator?_suffix {cs : List Char} {ts rest : List Token}
    (h : Ahead.operator? cs ts = some rest) : rest <:+ ts := by
  fun_induction Ahead.operator? cs ts with
  | case1 c d joint tail hsame =>
      obtain rfl := Option.some.inj h
      exact List.suffix_cons _ _
  | case2 => cases h
  | case3 c c' cs d tail hsame ih => exact (ih h).trans (List.suffix_cons _ _)
  | case4 => cases h
  | case5 => cases h

instance op (s : String) : Forward (Reader.op s) where
  suffix {c c' a} h := by
    unfold Reader.op at h
    split at h
    · next rest heq =>
        obtain ⟨-, rfl⟩ := Prod.mk.inj (Option.some.inj h)
        exact operator?_suffix heq
    · cases h

instance optWord (w : String) : Forward (Reader.optWord w) := by
  unfold Reader.optWord
  infer_instance

instance optOp (s : String) : Forward (Reader.optOp s) := by
  unfold Reader.optOp
  infer_instance

instance lifetime : Forward Reader.lifetime where
  suffix {c c' a} h := by
    unfold Reader.lifetime at h
    split at h
    · next heq =>
        obtain ⟨-, rfl⟩ := Prod.mk.inj (Option.some.inj h)
        rw [heq]
        exact List.suffix_append [_, _] _
    · cases h

instance literal : Forward Reader.literal where
  suffix {c c' a} h := by
    unfold Reader.literal at h
    split at h
    · next heq =>
        obtain ⟨-, rfl⟩ := Prod.mk.inj (Option.some.inj h)
        rw [heq]
        exact List.suffix_cons _ _
    · next heq =>
        split at h
        · obtain ⟨-, rfl⟩ := Prod.mk.inj (Option.some.inj h)
          rw [heq]
          exact List.suffix_cons _ _
        · cases h
    · next heq =>
        split at h
        · obtain ⟨-, rfl⟩ := Prod.mk.inj (Option.some.inj h)
          rw [heq]
          exact List.suffix_append [_, _] _
        · cases h
    · cases h

/-- A group is left as a whole, whatever is read of its body. -/
instance inGroup (d : Delimiter) (body : Reader α) : Forward (Reader.inGroup d body) where
  suffix {c c' a} h := by
    unfold Reader.inGroup at h
    split at h
    · next heq =>
        split at h
        · split at h
          · split at h
            · obtain ⟨-, rfl⟩ := Prod.mk.inj (Option.some.inj h)
              rw [heq]
              exact List.suffix_cons _ _
            · cases h
          · cases h
        · cases h
    · cases h

instance anyGroup : Forward Reader.anyGroup where
  suffix {c c' a} h := by
    unfold Reader.anyGroup at h
    split at h
    · next heq =>
        obtain ⟨-, rfl⟩ := Prod.mk.inj (Option.some.inj h)
        rw [heq]
        exact List.suffix_cons _ _
    · cases h

instance rawGroup (d : Delimiter) : Forward (Reader.rawGroup d) := by
  unfold Reader.rawGroup
  infer_instance

/-! ## Repetition -/

instance iterate (step : α → Reader (Option α)) (a : α) [hstep : ∀ a, Forward (step a)] :
    Forward (Reader.iterate step a) where
  suffix {c c' b} h := by
    -- round by round, from whatever the rounds before have given
    fun_induction Reader.iterate step a c with
    | case1 => cases h
    | case2 a c mid hround =>
        obtain ⟨-, rfl⟩ := Prod.mk.inj (Option.some.inj h)
        exact (hstep a).suffix hround
    | case3 a c a' mid hround hless ih => exact (ih h).trans ((hstep a).suffix hround)
    | case4 a c a' mid hround hmore =>
        obtain ⟨-, rfl⟩ := Prod.mk.inj (Option.some.inj h)
        exact (hstep a).suffix hround

instance rounds (step : Reader Bool) [Forward step] : Forward (Reader.rounds step) := by
  unfold Reader.rounds
  infer_instance

instance commaSeparated (element : Reader α) [Forward element] :
    Forward (Reader.commaSeparated element) := by
  unfold Reader.commaSeparated
  dsimp only
  infer_instance

/-! ## What is written -/

instance captured (r : Reader α) [hr : Forward r] : Forward (Reader.captured r) where
  suffix {c c' a} h := by
    unfold Reader.captured at h
    split at h
    · next heq =>
        obtain ⟨-, rfl⟩ := Prod.mk.inj (Option.some.inj h)
        have hsuffix := hr.suffix heq
        exact hsuffix
    · cases h

instance write (ts : List Token) : Forward (Reader.write ts) where
  suffix h := by
    obtain ⟨-, rfl⟩ := Prod.mk.inj (Option.some.inj h)
    exact List.suffix_rfl

instance recorded (r : Reader α) [Forward r] : Forward (Reader.recorded r) := by
  unfold Reader.recorded
  infer_instance

instance tokensOf (r : Reader Unit) [Forward r] : Forward (Reader.tokensOf r) := by
  unfold Reader.tokensOf
  infer_instance

instance unwritten (r : Reader α) [Forward r] : Forward (Reader.unwritten r) := by
  unfold Reader.unwritten
  infer_instance

instance consumed (r : Reader α) [hr : Forward r] : Forward (Reader.consumed r) where
  suffix {c c' a} h := by
    unfold Reader.consumed at h
    split at h
    · next heq =>
        obtain ⟨-, rfl⟩ := Prod.mk.inj (Option.some.inj h)
        exact hr.suffix heq
    · cases h

instance verbatimIf (r : Reader (α × Bool)) [Forward r] : Forward (Reader.verbatimIf r) := by
  unfold Reader.verbatimIf
  infer_instance

instance verbatim (r : Reader α) [Forward r] : Forward (Reader.verbatim r) := by
  unfold Reader.verbatim
  infer_instance

end Forward

/-! ## Rules -/

/-- Rules that go forward, as far as types and what stands beside them need them. -/
class Rules.Forward (r : Rules) : Prop where
  type : ∀ plus, Source.Forward (r.type plus)
  argument : Source.Forward r.argument
  parameter : ∀ anonymous, Source.Forward (r.parameter anonymous)

attribute [instance] Rules.Forward.type Rules.Forward.argument Rules.Forward.parameter

namespace Grammar

-- the longer rules have more parts than a search for an instance goes through by default
set_option synthInstance.maxSize 4000
set_option synthInstance.maxHeartbeats 200000

variable (r : Rules) {α : Type}

instance forward_ignoring (a : Reader α) [Forward a] : Forward (ignoring a) := by
  unfold ignoring
  infer_instance

instance forward_builtin : Forward builtin := by
  unfold builtin
  infer_instance

/-! ### Attributes, visibility and macro calls -/

instance forward_outerAttributes : Forward (outerAttributes r) := by
  unfold outerAttributes
  infer_instance

instance forward_attributedBlock : Forward (attributedBlock r) := by
  unfold attributedBlock
  infer_instance

instance forward_restriction : Forward restriction := by
  unfold restriction
  infer_instance

instance forward_macroCall : Forward macroCall := by
  unfold macroCall macroBody
  infer_instance

instance forward_modifier : Forward modifier := by
  unfold modifier
  refine @Forward.bind _ _ _ _ inferInstance fun marked => ?_
  split
  · refine @Forward.bind _ _ _ _ inferInstance fun next => ?_
    split
    · infer_instance
    · split
      · refine @Forward.bind _ _ _ _ inferInstance fun found => ?_
        cases found <;> infer_instance
      · infer_instance
  · infer_instance

/-! ### Paths, arguments and bounds -/

instance forward_angleList (isLifetime : α → Bool) (element : Reader α) [Forward element] :
    Forward (angleList isLifetime element) := by
  unfold angleList
  dsimp only
  infer_instance

instance forward_writeAngles (ts : List Token) : Forward (writeAngles ts) := by
  unfold writeAngles
  infer_instance

instance forward_constantArgument : Forward (constantArgument r) := by
  unfold constantArgument
  infer_instance

instance forward_introduced (content : Reader Unit) [Forward content] :
    Forward (introduced content) := by
  unfold introduced
  infer_instance

instance forward_lifetimesUntil (stop : List Token → Bool) : Forward (lifetimesUntil stop) := by
  unfold lifetimesUntil
  infer_instance

instance forward_capturedParameters : Forward capturedParameters := by
  unfold capturedParameters
  infer_instance

instance forward_moreBounds (bound : Reader Bool) [Forward bound] (found : Bool) :
    Forward (moreBounds bound found) := by
  unfold moreBounds
  infer_instance

instance forward_boundsOf (bound : Reader Bool) [Forward bound] (plus : Bool) :
    Forward (boundsOf bound plus) := by
  unfold boundsOf
  infer_instance

instance forward_boundsUntil (bound : Reader Bool) [Forward bound] (stop : List Token → Bool) :
    Forward (boundsUntil bound stop) := by
  unfold boundsUntil
  infer_instance

instance forward_looseBoundsUntil (bound : Reader Bool) [Forward bound]
    (stop : List Token → Bool) : Forward (looseBoundsUntil bound stop) := by
  unfold looseBoundsUntil
  infer_instance

variable [r.Forward]

instance forward_angleArguments : Forward (angleArguments r) := by
  unfold angleArguments
  infer_instance

instance forward_pathName (inExpression : Bool) : Forward (pathName r inExpression) := by
  unfold pathName
  dsimp only
  infer_instance

instance forward_pathNames (inExpression calls : Bool) :
    Forward (pathNames r inExpression calls) := by
  unfold pathNames
  infer_instance

instance forward_pathOf (inExpression : Bool) : Forward (pathOf r inExpression) := by
  unfold pathOf
  infer_instance

instance forward_qualifiedPathOf (inExpression : Bool) :
    Forward (qualifiedPathOf r inExpression) := by
  unfold qualifiedPathOf
  dsimp only
  infer_instance

instance forward_boundPath : Forward (boundPath r) := by
  unfold boundPath
  infer_instance

instance forward_binder : Forward (binder r) := by
  unfold binder
  infer_instance

instance forward_traitBound (constant : Bool) : Forward (traitBound r constant) := by
  unfold traitBound
  dsimp only
  infer_instance

instance forward_boundOf (kinds : BoundKinds) : Forward (boundOf r kinds) := by
  unfold boundOf
  dsimp only
  infer_instance

instance forward_argument : Forward (argument r) := by
  unfold argument
  dsimp only
  infer_instance

instance forward_parameter (anonymous : Bool) : Forward (parameter r anonymous) := by
  unfold parameter
  dsimp only
  infer_instance

/-! ### Types -/

instance forward_traitObject (plus : Bool) : Forward (traitObject r plus) := by
  unfold traitObject
  infer_instance

instance forward_sumOfBounds : Forward (sumOfBounds r) := by
  unfold sumOfBounds
  infer_instance

instance forward_functionPointer : Forward (functionPointer r) := by
  unfold functionPointer convention result
  dsimp only
  infer_instance

instance forward_tupleRest : Forward (tupleRest r) := by
  unfold tupleRest
  infer_instance

instance forward_parenthesized (plus : Bool) : Forward (parenthesized r plus) := by
  unfold parenthesized
  refine @Forward.bind _ _ _ _ inferInstance fun content => ?_
  cases content <;> infer_instance

instance forward_pathType (plus bound : Bool) : Forward (pathType r plus bound) := by
  unfold pathType
  infer_instance

instance forward_bracketed : Forward (bracketed r) := by
  unfold bracketed
  infer_instance

instance forward_rawPointer : Forward (rawPointer r) := by
  unfold rawPointer
  infer_instance

instance forward_reference : Forward (reference r) := by
  unfold reference
  infer_instance

instance forward_opaqueType (plus : Bool) : Forward (opaqueType r plus) := by
  unfold opaqueType
  infer_instance

instance forward_builtinType : Forward builtinType := by
  unfold builtinType
  infer_instance

instance forward_type (plus : Bool) : Forward (type r plus) := by
  unfold type
  dsimp only
  -- the choices are nested too deeply to be found in one search
  repeat' first
    | infer_instance
    | refine @Forward.ite _ _ _ _ _ ?_ ?_
    | refine @Forward.bind _ _ _ _ ?_ fun _ => ?_

/-- **The rules go forward**, however deep they nest. -/
instance forward_rules (depth : Nat) : (rules depth).Forward := by
  induction depth with
  | zero => exact ⟨fun _ => Forward.refuse, Forward.refuse, fun _ => Forward.refuse⟩
  | succ depth ih =>
      exact ⟨fun plus => forward_type _ plus, forward_argument _, fun a => forward_parameter _ a⟩

/-! ### Generic parameters and fields -/

instance forward_generics : Forward (generics r) := by
  unfold generics
  infer_instance

instance forward_constraint : Forward (constraint r) := by
  unfold constraint
  dsimp only
  infer_instance

instance forward_whereClause : Forward (whereClause r) := by
  unfold whereClause
  infer_instance

instance forward_fieldType (unnamed : Bool) (nested : Reader Unit) [Forward nested] :
    Forward (fieldType r unnamed nested) := by
  unfold fieldType
  infer_instance

instance forward_namedField (nested : Reader Unit) [Forward nested] :
    Forward (namedField r nested) := by
  unfold namedField
  infer_instance

instance forward_fieldsWithin (depth : Nat) : Forward (fieldsWithin r depth) := by
  cases depth with
  | zero => exact Forward.refuse
  | succ depth => exact Forward.inGroup _ _

instance forward_namedFields : Forward (namedFields r) where
  suffix h := (forward_fieldsWithin r _).suffix h

instance forward_tupleFields : Forward (tupleFields r) := by
  unfold tupleFields
  infer_instance

end Grammar

end ObservableStore.Source
