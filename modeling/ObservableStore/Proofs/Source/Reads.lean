import ObservableStore.Proofs.Source.Legible

/-!
# `Proofs.Source.Reads` — types that are paths are read as they are written

`Reads r ts a rest` says that a reader gives `a` from the tokens `ts` and leaves `rest`, whatever was
written before. The tokens of names with `::` between them (`Spells`), of a path (`SpellsPath`) and
of arguments in angle brackets (`SpellsArguments`) are read as that path and as those arguments, so
that a type is read from its tokens (`reads_type`) where a comma, an angle bracket or nothing
follows.
-/

namespace ObservableStore.Source

open Reader Ahead

/-- A reader gives a result from some tokens and leaves others. -/
def Reads {α : Type} (r : Reader α) (ts : List Token) (a : α) (rest : List Token) : Prop :=
  ∀ written, ∃ written', r ⟨ts, written⟩ = some (a, ⟨rest, written'⟩)

namespace Reads

variable {α β : Type} {r : Reader α} {f : α → Reader β} {ts mid rest : List Token} {a : α} {b : β}

theorem pure : Reads (Pure.pure a : Reader α) ts a ts := fun written => ⟨written, rfl⟩

theorem bind (h : Reads r ts a mid) (hf : Reads (f a) mid b rest) : Reads (r >>= f) ts b rest := by
  intro written
  obtain ⟨between, hfirst⟩ := h written
  obtain ⟨written', hthen⟩ := hf between
  exact ⟨written', Reader.bind_eq_some.mpr ⟨a, _, hfirst, hthen⟩⟩

/-- A look ahead decides by the tokens that are there. -/
theorem ahead {p : List Token → Bool} {f : Bool → Reader β} {x : Bool} (h : p ts = x)
    (hf : Reads (f x) ts b rest) : Reads (Reader.ahead p >>= f) ts b rest := by
  subst h
  exact bind (fun written => ⟨written, rfl⟩) hf

theorem require {p : List Token → Bool} {f : Unit → Reader β} (h : p ts = true)
    (hf : Reads (f ()) ts b rest) : Reads (Reader.require p >>= f) ts b rest := by
  refine bind (fun written => ⟨written, ?_⟩) hf
  exact if_pos h

theorem anyWord {w : String} : Reads Reader.anyWord (.word w :: ts) w ts :=
  fun written => ⟨.word w :: written, rfl⟩

theorem op {s : String} (h : operator? s.toList ts = some rest) : Reads (Reader.op s) ts () rest := by
  intro written
  refine ⟨(Token.ofOperator s.toList).reverse ++ written, ?_⟩
  simp only [Reader.op, h]

/-- An operator that is not there is not read. -/
theorem optOp_false {s : String} (h : isOp s ts = false) : Reads (Reader.optOp s) ts false ts :=
  ahead h pure

theorem optOp_true {s : String} (h : operator? s.toList ts = some rest) :
    Reads (Reader.optOp s) ts true rest := by
  refine ahead (x := true) ?_ (bind (op h) pure)
  rw [isOp, h]
  rfl

theorem ignoring (h : Reads r ts a rest) : Reads (Grammar.ignoring r) ts () rest := bind h pure

theorem captured (h : Reads r ts a rest) : ∃ tokens, Reads (Reader.captured r) ts (a, tokens) rest := by
  obtain ⟨written', hr⟩ := h []
  refine ⟨written'.reverse, fun written => ⟨written, ?_⟩⟩
  simp only [Reader.captured, hr]

/-- What is done with a result does not depend on what was written. -/
theorem captured_bind {f : α × List Token → Reader β} (h : Reads r ts a mid)
    (hf : ∀ tokens, Reads (f (a, tokens)) mid b rest) :
    Reads (Reader.captured r >>= f) ts b rest := by
  obtain ⟨tokens, hcaptured⟩ := captured h
  exact bind hcaptured (hf tokens)

theorem write (tokens : List Token) : Reads (Reader.write tokens) ts () ts :=
  fun written => ⟨tokens.reverse ++ written, rfl⟩

theorem recorded (h : Reads r ts a rest) : ∃ tokens, Reads (Reader.recorded r) ts (a, tokens) rest := by
  obtain ⟨tokens, hcaptured⟩ := captured h
  exact ⟨tokens, bind hcaptured (bind (write tokens) pure)⟩

/-- A round that gives a result and leaves fewer tokens. -/
theorem iterate_more {step : α → Reader (Option α)} {a' : α} {b : α}
    (h : Reads (step a) ts (some a') mid) (hless : mid.length < ts.length)
    (hmore : Reads (Reader.iterate step a') mid b rest) : Reads (Reader.iterate step a) ts b rest := by
  intro written
  obtain ⟨between, hround⟩ := h written
  obtain ⟨written', hthen⟩ := hmore between
  refine ⟨written', ?_⟩
  rw [Reader.iterate, hround]
  simp only [hless, if_true]
  exact hthen

/-- A round that ends the repetition. -/
theorem iterate_done {step : α → Reader (Option α)} (h : Reads (step a) ts none mid) :
    Reads (Reader.iterate step a) ts a mid := by
  intro written
  obtain ⟨written', hround⟩ := h written
  refine ⟨written', ?_⟩
  rw [Reader.iterate, hround]

end Reads

/-! ## What is ahead -/

/-- What follows a type: a comma, a closing angle bracket, or nothing. -/
inductive Follows : List Token → Prop where
  | nothing : Follows []
  | comma {joint : Bool} {rest : List Token} : Follows (.punct ',' joint :: rest)
  | closing {joint : Bool} {rest : List Token} : Follows (.punct '>' joint :: rest)

/-- What a type that is a path begins with. -/
inductive TypeAhead : List Token → Prop where
  | colons {joint : Bool} {rest : List Token} :
      TypeAhead (.punct ':' true :: .punct ':' joint :: rest)
  | name {w : String} {rest : List Token} (hw : IsPathName w) (htry : w ≠ "try")
      (hsign : isOp "#" rest = false) : TypeAhead (.word w :: rest)

/-- An operator of one character is read whatever follows it. -/
theorem operator?_single {s : String} {c : Char} (hs : s.toList = [c]) (hc : c ≠ '\'')
    (joint : Bool) (rest : List Token) :
    operator? s.toList (.punct c joint :: rest) = some rest := by
  rw [hs, operator?, if_pos ⟨rfl, hc⟩]

/-- An operator of one character is not what other tokens begin with. -/
theorem isOp_single {s : String} {c d : Char} (hs : s.toList = [c]) (h : d ≠ c) (joint : Bool)
    (rest : List Token) : isOp s (.punct d joint :: rest) = false := by
  rw [isOp, hs, operator?, if_neg fun hc => h hc.1.symm]
  rfl

theorem isOp_word (s : String) (w : String) (rest : List Token) :
    isOp s (.word w :: rest) = false := by
  rw [isOp]
  cases s.toList with
  | nil => rfl
  | cons c cs => cases cs <;> rfl

theorem isOp_nil (s : String) : isOp s [] = false := by
  rw [isOp]
  cases s.toList with
  | nil => rfl
  | cons c cs => cases cs <;> rfl

/-- Keywords other than those of paths are no names of paths. -/
theorem IsPathName.ne_keyword {w k : String} (hw : IsPathName w)
    (hk : k ∈ keywords ∧ k ∉ ["self", "super", "crate", "try", "Self"]) : w ≠ k := by
  rintro rfl
  rcases hw.known with (hident | rfl) | hmem
  · have hkeyword : keywords.contains w = true := List.contains_iff_mem.mpr hk.1
    rw [isIdentifier, hkeyword] at hident
    cases hident
  · exact hk.2 (by decide)
  · refine hk.2 ?_
    simp only [List.mem_cons, List.not_mem_nil, or_false] at hmem ⊢
    tauto

namespace Follows

variable {ts : List Token}

/-- What follows a type begins with no operator but a comma or an angle bracket. -/
theorem isOp_eq_false (h : Follows ts) {s : String} {c : Char} (hs : s.toList = [c])
    (hc : c ≠ ',' ∧ c ≠ '>') : isOp s ts = false := by
  cases h with
  | nothing => exact isOp_nil s
  | comma => exact isOp_single hs hc.1.symm _ _
  | closing => exact isOp_single hs hc.2.symm _ _

theorem isColons_eq_false (h : Follows ts) : isOp "::" ts = false := by
  cases h with
  | nothing => rfl
  | comma => rename_i joint _; cases joint <;> rfl
  | closing => rename_i joint _; cases joint <;> rfl

end Follows

namespace TypeAhead

variable {ts : List Token}

theorem isLifetime_eq_false (h : TypeAhead ts) : isLifetime ts = false := by
  cases h <;> rfl

theorem isGroup_eq_false (h : TypeAhead ts) (d : Delimiter) : isGroup d ts = false := by
  cases h <;> rfl

theorem isLiteral_eq_false (h : TypeAhead ts) : isLiteral ts = false := by
  cases h with
  | colons => rfl
  | name hw =>
      have htrue := hw.ne_keyword (k := "true") (by decide)
      have hfalse := hw.ne_keyword (k := "false") (by decide)
      simp [isLiteral, htrue, hfalse]

theorem isWord_eq_false (h : TypeAhead ts) {k : String}
    (hk : k ∈ keywords ∧ k ∉ ["self", "super", "crate", "try", "Self"]) : isWord k ts = false := by
  cases h with
  | colons => rfl
  | name hw => exact beq_eq_false_iff_ne.mpr (hw.ne_keyword hk)

theorem isOp_eq_false (h : TypeAhead ts) {s : String} {c : Char} (hs : s.toList = [c])
    (hc : c ≠ ':') : isOp s ts = false := by
  cases h with
  | colons => exact isOp_single hs hc.symm _ _
  | name => exact isOp_word s _ _

theorem isBuiltin_eq_false (h : TypeAhead ts) : isBuiltin ts = false := by
  cases h with
  | colons => rfl
  | name hw htry hsign => simp [isBuiltin, skip, hsign]

theorem isPathStart_eq_true (h : TypeAhead ts) : isPathStart ts = true := by
  cases h with
  | colons => rfl
  | @name w rest hw htry hsign =>
      have hname : isPathName (.word w :: rest) = true := by
        rcases hw.known with (hident | rfl) | hmem
        · simp [isPathName, isName, hident]
        · rfl
        · simp only [List.mem_cons, List.not_mem_nil, or_false] at hmem
          rcases hmem with rfl | rfl | rfl | rfl
          · rfl
          · rfl
          · rfl
          · exact absurd rfl htry
      simp [isPathStart, hname]

end TypeAhead

/-! ## Names -/

/-- Tokens that are names with `::` between them, in front of others. -/
inductive Spells : List String → List Token → List Token → Prop where
  | last {name : String} {rest : List Token} : Spells [name] (.word name :: rest) rest
  | more {name : String} {names : List String} {joint : Bool} {ts rest : List Token}
      (h : Spells names ts rest) :
      Spells (name :: names) (.word name :: .punct ':' true :: .punct ':' joint :: ts) rest

theorem Spells.head {names : List String} {ts rest : List Token} (h : Spells names ts rest) :
    ∃ name more, names.head? = some name ∧ ts = .word name :: more := by
  cases h with
  | last => exact ⟨_, _, rfl, rfl⟩
  | more => exact ⟨_, _, rfl, rfl⟩

/-- Names of which the last one has arguments. -/
def withArguments (args : Option (List Argument)) :
    List String → List (String × Option (List Argument))
  | [] => []
  | [name] => [(name, args)]
  | name :: rest => (name, none) :: withArguments args rest

theorem map_fst_withArguments (args : Option (List Argument)) (names : List String) :
    (withArguments args names).map Prod.fst = names := by
  fun_induction withArguments args names with
  | case1 => rfl
  | case2 => rfl
  | case3 name rest hne ih => rw [List.map_cons, ih]

theorem getLast?_withArguments (args : Option (List Argument)) {names : List String}
    (h : names ≠ []) : ((withArguments args names).getLast?.bind Prod.snd) = args := by
  fun_induction withArguments args names with
  | case1 => exact absurd rfl h
  | case2 => rfl
  | case3 name rest hne ih =>
      obtain ⟨second, others, rfl⟩ := List.exists_cons_of_ne_nil hne
      have hrest := ih (List.cons_ne_nil _ _)
      obtain ⟨x, xs, hx⟩ : ∃ x xs, withArguments args (second :: others) = x :: xs := by
        cases others <;> exact ⟨_, _, rfl⟩
      rw [hx] at hrest ⊢
      exact hrest

namespace Grammar

variable {r : Rules} {ts us rest : List Token} {name : String}

/-- A name that takes arguments is none of the words that take none. -/
theorem takesArguments_ne (h : TakesArguments name) :
    ∀ w ∈ ["self", "super", "crate", "try"], name ≠ w := by
  rintro w hw rfl
  rcases h with hident | rfl
  · have hnone : ∀ w ∈ ["self", "super", "crate", "try"], isIdentifier w = false := by decide
    exact absurd (hident.symm.trans (hnone name hw)) (by decide)
  · exact absurd hw (by decide)

/-- What is done behind a name that takes arguments, whether it is `Self` or an identifier. -/
theorem reads_nameWith {f : String → Reader (String × Option (List Argument))}
    {x : String × Option (List Argument)} (hname : TakesArguments name)
    (hf : Reads (f name) ts x rest) :
    Reads (do
      if ← ahead (fun ts => isPathWord ts || isWord "try" ts) then
        let n ← anyWord
        return (n, none)
      else
        if ← ahead (isWord "Self") then
          let n ← anyWord
          f n
        else
          let n ← Reader.name
          f n) (.word name :: ts) x rest := by
  have hne := takesArguments_ne hname
  have halone : (isPathWord (.word name :: ts) || isWord "try" (.word name :: ts)) = false := by
    simp [isPathWord, isWord, hne]
  refine Reads.ahead halone ?_
  by_cases hself : name = "Self"
  · subst hself
    exact Reads.ahead (x := true) rfl (Reads.bind Reads.anyWord hf)
  · refine Reads.ahead (x := false) (beq_eq_false_iff_ne.mpr hself) (Reads.bind ?_ hf)
    exact Reads.require (hname.resolve_right hself) Reads.anyWord

/-- A name behind which neither `<` nor `::<` stands is read without arguments. -/
theorem reads_pathName (hname : IsPathName name) (hangle : isOp "<" ts = false)
    (hcolons : (isOp "::" ts && isOp "<" (skip (skip ts))) = false) :
    Reads (pathName r false) (.word name :: ts) (name, none) ts := by
  unfold pathName
  dsimp only
  rcases hname.known with htakes | halone
  · refine reads_nameWith htakes (Reads.ahead (x := false) ?_ (Reads.ahead hcolons Reads.pure))
    rw [hangle]
    rfl
  · refine Reads.ahead (x := true) ?_ (Reads.bind Reads.anyWord Reads.pure)
    simpa [isPathWord, isWord, or_assoc] using halone

/-- A name behind which a single `<` stands is read with its arguments. -/
theorem reads_pathName_angles {joint : Bool} {args : List Argument} (hname : TakesArguments name)
    (hahead : TypeAhead ts)
    (hargs : Reads (angleArguments r) (.punct '<' joint :: ts) args rest) :
    Reads (pathName r false) (.word name :: .punct '<' joint :: ts) (name, some args) rest := by
  have hcolons : isOp "::" (.punct '<' joint :: ts) = false := by cases joint <;> rfl
  have hbare : (isOp "<" (.punct '<' joint :: ts) && !isOp "<=" (.punct '<' joint :: ts)
      && !isOp "<<=" (.punct '<' joint :: ts)) = true := by
    cases hahead <;> cases joint <;> rfl
  unfold pathName
  dsimp only
  refine reads_nameWith hname (Reads.ahead hbare (Reads.ahead (x := false) ?_ ?_))
  · rw [hcolons]
    rfl
  · exact Reads.bind (Reads.ignoring (Reads.optOp_false hcolons)) (Reads.bind hargs Reads.pure)

/-- A name behind which `::` and another name stand. -/
theorem reads_pathName_more {names : List String} {joint : Bool} (hname : IsPathName name)
    (h : Spells names ts us) :
    Reads (pathName r false) (.word name :: .punct ':' true :: .punct ':' joint :: ts) (name, none)
      (.punct ':' true :: .punct ':' joint :: ts) := by
  refine reads_pathName hname (isOp_single rfl (by decide) _ _) ?_
  obtain ⟨next, more, -, rfl⟩ := h.head
  have hskip : skip (skip (.punct ':' true :: .punct ':' joint :: .word next :: more)) =
      .word next :: more := rfl
  rw [hskip, isOp_word, Bool.and_false]

/-- Further names of a path are read with `::` in front of each, and put in front of those that
    were read before. -/
theorem reads_moreNames {names : List String} {args : Option (List Argument)}
    (h : Spells names ts us) (hnames : ∀ n ∈ names, IsPathName n)
    (hlast : ∀ last, names.getLast? = some last →
      Reads (pathName r false) (.word last :: us) (last, args) rest)
    (hless : rest.length ≤ us.length) (hend : isOp "::" rest = false) (joint : Bool)
    (before : List (String × Option (List Argument))) :
    Reads (iterate (fun names => do
        if ← ahead (fun ts => isOp "::" ts && !(true && isGroup .parenthesis (skip (skip ts)))) then
          op "::"
          let n ← pathName r false
          return some (n :: names)
        return none) before)
      (.punct ':' true :: .punct ':' joint :: ts) ((withArguments args names).reverse ++ before)
      rest := by
  induction h generalizing before joint with
  | @last name us =>
      refine Reads.iterate_more (Reads.ahead (x := true) (by cases joint <;> rfl) (Reads.bind
        (Reads.op rfl) (Reads.bind (hlast name rfl) Reads.pure))) ?_ ?_
      · simp only [List.length_cons]
        omega
      · refine Reads.iterate_done (Reads.ahead (x := false) ?_ Reads.pure)
        rw [hend]
        rfl
  | @more name names joint' ts us h ih =>
      have hne : names ≠ [] := by cases h <;> simp
      have hgroup : (isOp "::" (.punct ':' true :: .punct ':' joint :: .word name ::
          .punct ':' true :: .punct ':' joint' :: ts) && !(true && isGroup .parenthesis (skip (skip
          (.punct ':' true :: .punct ':' joint :: .word name :: .punct ':' true ::
            .punct ':' joint' :: ts))))) = true := by
        cases joint <;> rfl
      refine Reads.iterate_more (Reads.ahead hgroup (Reads.bind (Reads.op rfl) (Reads.bind
        (reads_pathName_more (hnames name List.mem_cons_self) h) Reads.pure))) ?_ ?_
      · simp only [List.length_cons]
        omega
      · have hrest := ih (fun n hn => hnames n (List.mem_cons_of_mem name hn))
          (fun last hlast' => hlast last (by rw [List.getLast?_cons, hlast']; rfl)) hless
          joint' ((name, none) :: before)
        obtain ⟨second, others, rfl⟩ := List.exists_cons_of_ne_nil hne
        rw [withArguments, List.reverse_cons, List.append_assoc]
        · exact hrest
        · intro heq
          cases heq

/-- The names of a path are read up to the last one, which is read with what stands behind it. -/
theorem reads_pathNames {names : List String} {args : Option (List Argument)}
    (h : Spells names ts us) (hnames : ∀ n ∈ names, IsPathName n)
    (hlast : ∀ last, names.getLast? = some last →
      Reads (pathName r false) (.word last :: us) (last, args) rest)
    (hless : rest.length ≤ us.length) (hend : isOp "::" rest = false) :
    Reads (pathNames r false true) ts (withArguments args names) rest := by
  unfold pathNames
  cases h with
  | last =>
      refine Reads.bind (hlast _ rfl) (Reads.bind (Reads.iterate_done ?_) Reads.pure)
      refine Reads.ahead (x := false) ?_ Reads.pure
      rw [hend]
      rfl
  | @more name names joint ts _ h =>
      have hne : names ≠ [] := by cases h <;> simp
      have hmore := reads_moreNames h (fun n hn => hnames n (List.mem_cons_of_mem name hn))
        (fun last hlast' => hlast last (by rw [List.getLast?_cons, hlast']; rfl)) hless hend
        joint [(name, none)]
      refine Reads.bind (reads_pathName_more (hnames name List.mem_cons_self) h)
        (Reads.bind hmore ?_)
      obtain ⟨second, others, rfl⟩ := List.exists_cons_of_ne_nil hne
      rw [List.reverse_append, List.reverse_reverse]
      exact Reads.pure

/-! ## Paths -/

/-- Tokens that are a path, in front of others. -/
inductive SpellsPath : Path → List Token → List Token → Prop where
  | plain {names : List String} {ts rest : List Token} (h : Spells names ts rest) :
      SpellsPath ⟨false, names⟩ ts rest
  | rooted {names : List String} {joint : Bool} {ts rest : List Token} (h : Spells names ts rest) :
      SpellsPath ⟨true, names⟩ (.punct ':' true :: .punct ':' joint :: ts) rest

theorem SpellsPath.typeAhead {p : Path} (h : SpellsPath p ts us) (hp : p.Legible)
    (hsign : isOp "#" us = false) : TypeAhead ts := by
  cases h with
  | rooted => exact .colons
  | plain h =>
      cases h with
      | last =>
          exact .name (hp.names _ List.mem_cons_self)
            (fun heq => hp.first rfl (by rw [heq]; rfl)) hsign
      | more =>
          exact .name (hp.names _ List.mem_cons_self)
            (fun heq => hp.first rfl (by rw [heq]; rfl)) (isOp_single rfl (by decide) _ _)

theorem reads_pathOf {p : Path} {args : Option (List Argument)} (h : SpellsPath p ts us)
    (hp : p.Legible)
    (hlast : ∀ last, p.names.getLast? = some last →
      Reads (pathName r false) (.word last :: us) (last, args) rest)
    (hless : rest.length ≤ us.length) (hend : isOp "::" rest = false) :
    Reads (pathOf r false) ts (pathForm p.rooted false (withArguments args p.names)) rest := by
  unfold pathOf
  cases h with
  | rooted h =>
      refine Reads.bind (Reads.optOp_true rfl) (Reads.bind ?_ Reads.pure)
      exact reads_pathNames h hp.names hlast hless hend
  | plain h =>
      refine Reads.bind (Reads.optOp_false ?_) (Reads.bind ?_ Reads.pure)
      · obtain ⟨name, more, -, rfl⟩ := h.head
        exact isOp_word _ _ _
      · exact reads_pathNames h hp.names hlast hless hend

/-! ## Arguments and types -/

/-- Tokens of arguments behind an opening angle bracket, up to the closing one and what stands
    behind it. Each argument is read as it is with what follows it. -/
inductive SpellsArguments (r : Rules) : List Argument → List Token → List Token → Prop where
  | last {a : Argument} {joint : Bool} {ts rest : List Token} (hahead : TypeAhead ts)
      (h : Reads r.argument ts a (.punct '>' joint :: rest))
      (hless : rest.length + 1 < ts.length) : SpellsArguments r [a] ts rest
  | more {a : Argument} {args : List Argument} {joint : Bool} {ts us rest : List Token}
      (hahead : TypeAhead ts) (h : Reads r.argument ts a (.punct ',' joint :: us))
      (hless : us.length < ts.length) (hmore : SpellsArguments r args us rest) :
      SpellsArguments r (a :: args) ts rest

theorem SpellsArguments.typeAhead {args : List Argument} (h : SpellsArguments r args ts rest) :
    TypeAhead ts := by
  cases h with
  | last hahead => exact hahead
  | more hahead => exact hahead

/-- The arguments are read one by one, up to the closing angle bracket. -/
theorem reads_elements {args : List Argument} (h : SpellsArguments r args ts rest)
    (before : List (Argument × Piece)) :
    ∃ (found : List (Argument × Piece)) (joint : Bool), found.map Prod.fst = args ∧
      Reads (iterate (fun found => do
        if ← ahead (isOp ">") then return none
        let (a, tokens) ← captured r.argument
        let comma ← if ← ahead (isOp ">") then pure false else do op ","; pure true
        return some ((a, ⟨Argument.isLifetime a, tokens, comma⟩) :: found)) before)
      ts (found.reverse ++ before) (.punct '>' joint :: rest) := by
  induction h generalizing before with
  | @last a joint ts rest hahead h hless =>
      obtain ⟨tokens, hcaptured⟩ := Reads.captured h
      have hstop : isOp ">" (.punct '>' joint :: rest) = true := by cases joint <;> rfl
      refine ⟨[(a, ⟨a.isLifetime, tokens, false⟩)], joint, rfl, ?_⟩
      refine Reads.iterate_more (Reads.ahead (hahead.isOp_eq_false rfl (by decide)) (Reads.bind
        hcaptured (Reads.ahead hstop (Reads.bind Reads.pure Reads.pure)))) hless ?_
      exact Reads.iterate_done (Reads.ahead hstop Reads.pure)
  | @more a args joint ts us rest hahead h hless hmore ih =>
      obtain ⟨tokens, hcaptured⟩ := Reads.captured h
      have hgo : isOp ">" (.punct ',' joint :: us) = false := isOp_single rfl (by decide) _ _
      obtain ⟨found, joint', hfound, hrest⟩ := ih ((a, ⟨a.isLifetime, tokens, true⟩) :: before)
      refine ⟨(a, ⟨a.isLifetime, tokens, true⟩) :: found, joint', by rw [List.map_cons, hfound], ?_⟩
      refine Reads.iterate_more (Reads.ahead (hahead.isOp_eq_false rfl (by decide)) (Reads.bind
        hcaptured (Reads.ahead hgo (Reads.bind (Reads.op rfl) (Reads.bind Reads.pure
          Reads.pure))))) hless ?_
      rw [List.reverse_cons, List.append_assoc]
      exact hrest

theorem SpellsArguments.length_lt {args : List Argument} (h : SpellsArguments r args ts rest) :
    rest.length < ts.length := by
  induction h with
  | last _ _ hless => exact Nat.lt_of_succ_lt hless
  | more _ _ hless _ ih => exact Nat.lt_trans ih hless

theorem reads_angleArguments {args : List Argument} {joint : Bool}
    (h : SpellsArguments r args ts rest) :
    Reads (angleArguments r) (.punct '<' joint :: ts) args rest := by
  obtain ⟨found, joint', hfound, hread⟩ := reads_elements h []
  have hopen : Reads (op "<") (.punct '<' joint :: ts) () ts :=
    Reads.op (operator?_single rfl (by decide) _ _)
  have hclose : Reads (op ">") (.punct '>' joint' :: rest) () rest :=
    Reads.op (operator?_single rfl (by decide) _ _)
  unfold angleArguments angleList
  refine Reads.bind (Reads.captured_bind (Reads.bind hopen (Reads.bind hread (Reads.bind hclose
    Reads.pure))) fun tokens => Reads.pure) (Reads.bind (Reads.write _) ?_)
  rw [List.append_nil, List.reverse_reverse, hfound]
  exact Reads.pure

/-- A type that is no name in front of `=` or `:` is an argument. -/
theorem reads_argument {t : TypeExpr} (hahead : TypeAhead ts) (hfollows : Follows rest)
    (h : Reads (r.type true) ts t rest) : Reads (argument r) ts (.type t) rest := by
  have hlifetime : (isLifetime ts && !isOp "+" (skip ts)) = false := by
    rw [hahead.isLifetime_eq_false]
    rfl
  have hconstant : isConstant ts = false := by
    rw [isConstant, hahead.isLiteral_eq_false, hahead.isGroup_eq_false]
    rfl
  obtain ⟨tokens, hrecorded⟩ := Reads.recorded h
  unfold argument
  dsimp only
  refine Reads.ahead hlifetime (Reads.ahead hconstant (Reads.bind hrecorded ?_))
  refine Reads.ahead (hfollows.isOp_eq_false rfl (by decide)) ?_
  rw [Bool.and_false, if_neg Bool.false_ne_true]
  refine Reads.ahead (hfollows.isOp_eq_false rfl (by decide)) ?_
  rw [Bool.and_false, if_neg Bool.false_ne_true]
  exact Reads.pure

/-- What stands behind the last name of a path: its arguments, if it has any. -/
inductive Behind (r : Rules) : List Argument → List Token → List Token → Prop where
  | nothing {rest : List Token} : Behind r [] rest rest
  | angles {args : List Argument} {joint : Bool} {ts rest : List Token}
      (h : SpellsArguments r args ts rest) :
      Behind r args (.punct '<' joint :: ts) rest

/-- The last name of a path is read with what stands behind it. -/
theorem reads_lastName {args : List Argument} (hname : IsPathName name)
    (htakes : args ≠ [] → TakesArguments name) (h : Behind r args us rest)
    (hfollows : Follows rest) :
    ∃ found, found.getD [] = args ∧ (found = none → args = []) ∧
      Reads (pathName r false) (.word name :: us) (name, found) rest := by
  cases h with
  | nothing =>
      refine ⟨none, rfl, fun _ => rfl, reads_pathName hname ?_ ?_⟩
      · exact hfollows.isOp_eq_false rfl (by decide)
      · rw [hfollows.isColons_eq_false, Bool.false_and]
  | angles h =>
      have hne : args ≠ [] := by cases h <;> simp
      refine ⟨some args, rfl, ?_, ?_⟩
      · intro heq
        cases heq
      · exact reads_pathName_angles (htakes hne) h.typeAhead (reads_angleArguments h)

theorem Behind.isSign_eq_false {args : List Argument} (h : Behind r args us rest)
    (hfollows : Follows rest) : isOp "#" us = false := by
  cases h with
  | nothing => exact hfollows.isOp_eq_false rfl (by decide)
  | angles => exact isOp_single rfl (by decide) _ _

theorem Behind.length_le {args : List Argument} (h : Behind r args us rest) :
    rest.length ≤ us.length := by
  cases h with
  | nothing => exact Nat.le_refl _
  | angles h => exact Nat.le_of_lt (Nat.lt_trans h.length_lt (Nat.lt_succ_self _))

/-- **A type that is a path is read as it is written**, where a comma, a closing angle bracket or
    nothing follows. -/
theorem reads_type {p : Path} {args : List Argument} (hp : p.Legible) (h : SpellsPath p ts us)
    (hbehind : Behind r args us rest) (hfollows : Follows rest)
    (htakes : args ≠ [] → ∃ name, p.names.getLast? = some name ∧ TakesArguments name)
    (hself : p = Path.ofName "Self" → args ≠ []) :
    Reads (type r true) ts (.path p args) rest := by
  have hahead := h.typeAhead hp (hbehind.isSign_eq_false hfollows)
  obtain ⟨last, hlast⟩ : ∃ last, p.names.getLast? = some last :=
    ⟨_, List.getLast?_eq_some_getLast hp.nonempty⟩
  have htakes' : args ≠ [] → TakesArguments last := by
    intro hne
    obtain ⟨name, hname, htakes⟩ := htakes hne
    obtain rfl := Option.some.inj (hname.symm.trans hlast)
    exact htakes
  obtain ⟨found, hargs, hnone, hread⟩ := reads_lastName
    (hp.names last (List.mem_of_getLast? hlast)) htakes' hbehind hfollows
  have hpath : Reads (pathOf r false) ts
      (pathForm p.rooted false (withArguments found p.names)) rest := by
    refine reads_pathOf h hp (fun last' hlast' => ?_) hbehind.length_le hfollows.isColons_eq_false
    obtain rfl := Option.some.inj (hlast.symm.trans hlast')
    exact hread
  have hform : (pathForm p.rooted false (withArguments found p.names)).path = p := by
    rw [pathForm, map_fst_withArguments]
  have hformArgs : (pathForm p.rooted false (withArguments found p.names)).arguments = args := by
    rw [pathForm, getLast?_withArguments found hp.nonempty, hargs]
  have hbracketed : (pathForm p.rooted false (withArguments found p.names)).bracketed
      = found.isSome := by
    rw [pathForm, getLast?_withArguments found hp.nonempty]
  have hmark : isMacroMark rest = false := by
    rw [isMacroMark, hfollows.isOp_eq_false rfl (by decide), Bool.false_and]
  have hnotSelf : (p.isName "Self" && !found.isSome) = false := by
    cases found with
    | some args' => simp
    | none =>
        have hne : ¬ p.isName "Self" = true := by
          intro hname
          refine hself ?_ (hnone rfl)
          obtain ⟨rooted, names⟩ := p
          simpa [Path.isName, Path.ofName] using hname
        rw [Bool.not_eq_true] at hne
        rw [hne, Bool.false_and]
  have hqualified : Reads (qualifiedPathOf r false) ts
      (pathForm p.rooted false (withArguments found p.names)) rest := by
    unfold qualifiedPathOf
    dsimp only
    exact Reads.bind (Reads.optOp_false (hahead.isOp_eq_false rfl (by decide))) hpath
  have htype : Reads (pathType r true false) ts (.path p args) rest := by
    unfold pathType
    dsimp only
    refine Reads.bind hqualified ?_
    rw [if_neg (by exact Bool.false_ne_true)]
    refine Reads.ahead hmark ?_
    rw [Bool.and_false, if_neg Bool.false_ne_true]
    refine Reads.ahead (hfollows.isOp_eq_false rfl (by decide)) ?_
    rw [hform, hformArgs, hbracketed, hnotSelf]
    exact Reads.pure
  unfold type
  dsimp only
  refine Reads.ahead (hahead.isWord_eq_false (by decide)) ?_
  refine Reads.ahead (hahead.isGroup_eq_false _) (Reads.ahead (x := false) ?_ ?_)
  · rw [isPointerStart, hahead.isWord_eq_false (by decide), hahead.isWord_eq_false (by decide),
      hahead.isWord_eq_false (by decide)]
    rfl
  · exact Reads.ahead (x := false) hahead.isBuiltin_eq_false
      (Reads.ahead (x := true) hahead.isPathStart_eq_true htype)

end Grammar

end ObservableStore.Source
