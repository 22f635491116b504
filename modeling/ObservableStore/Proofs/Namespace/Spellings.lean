import ObservableStore.Namespace
import ObservableStore.Proofs.Text.Split

/-!
# `Proofs.Namespace.Spellings` — the texts that read as one namespace

A namespace is shown with a separator between its segments, but it is also read from looser texts:
blanks may stand around the segments, and there may be more separators than needed. Such a text is
described by its marks, which are blanks, separators and whole segments (`Mark`). The marks of a
looser text are those of the namespace as shown, with blanks and separators added (`Loosens`).

Both directions are shown. A looser text is read as the same namespace (`segmentsOfText_of_loosens`),
by an induction on the marks that keeps apart whether a segment has just been read. And the pieces
between the separators of any text give it marks that are a loosening of what is read from it
(`exists_marks`). So the texts that read as a namespace are known exactly (`parse_eq_iff`).
-/

namespace ObservableStore

/-- A text that is a segment of a written namespace as it is. -/
structure IsSegment (s : String) : Prop where
  nonempty : s ≠ ""
  colon : ':' ∉ s.toList
  trimmed : Text.trim s.toList = s.toList

theorem isSegment_crate : IsSegment "crate" := ⟨by decide, by decide, by decide⟩

namespace Namespace

/-! ## Marks -/

/-- What a written namespace is made of. -/
inductive Mark where
  | blank (c : Char) (h : Text.isBlank c = true)
  | separator
  | segment (s : String)
deriving DecidableEq

/-- The characters of a mark. -/
def Mark.chars : Mark → List Char
  | .blank c _ => [c]
  | .separator => Namespace.separator
  | .segment s => s.toList

/-- The segment that a mark is, if it is one. -/
def Mark.segment? : Mark → Option String
  | .blank _ _ => none
  | .separator => none
  | .segment s => some s

/-- The characters of marks one behind the other. -/
def charsOf (marks : List Mark) : List Char := marks.flatMap Mark.chars

/-- The text that the marks make up. -/
def textOf (marks : List Mark) : String := String.ofList (charsOf marks)

/-- The segments among the marks, in order. -/
def namesOf (marks : List Mark) : List String := marks.filterMap Mark.segment?

/-- The marks of a namespace as it is shown (`textOf_shownMarks`). -/
def shownMarks (segments : List String) : List Mark :=
  (segments.map Mark.segment).intersperse .separator

/-- Marks that come from those of a shown namespace by adding blanks and separators. -/
structure Loosens (segments : List String) (marks : List Mark) : Prop where
  kept : (shownMarks segments).Sublist marks
  /-- No added mark is a segment. -/
  named : namesOf marks = segments

@[simp] theorem charsOf_nil : charsOf [] = [] := rfl

@[simp] theorem charsOf_cons (m : Mark) (marks : List Mark) :
    charsOf (m :: marks) = m.chars ++ charsOf marks := rfl

@[simp] theorem charsOf_append (marks marks' : List Mark) :
    charsOf (marks ++ marks') = charsOf marks ++ charsOf marks' := List.flatMap_append

theorem namesOf_append (marks marks' : List Mark) :
    namesOf (marks ++ marks') = namesOf marks ++ namesOf marks' := List.filterMap_append

theorem namesOf_added {m : Mark} (hm : m.segment? = none) (marks : List Mark) :
    namesOf (m :: marks) = namesOf marks := List.filterMap_cons_none hm

theorem namesOf_segment (s : String) (marks : List Mark) :
    namesOf (.segment s :: marks) = s :: namesOf marks := rfl

/-- The marks behind the first segment of a shown namespace. -/
def marksBehind : List String → List Mark
  | [] => []
  | s :: rest => .separator :: shownMarks (s :: rest)

theorem shownMarks_cons (s : String) (segments : List String) :
    shownMarks (s :: segments) = .segment s :: marksBehind segments := by
  cases segments <;> rfl

theorem namesOf_shownMarks (segments : List String) : namesOf (shownMarks segments) = segments := by
  induction segments with
  | nil => rfl
  | cons s rest ih =>
      rw [shownMarks_cons]
      cases rest with
      | nil => rfl
      | cons t rest => exact congrArg (s :: ·) ih

theorem charsOf_shownMarks (segments : List String) :
    charsOf (shownMarks segments) = (ofSegments segments).toChars := by
  induction segments with
  | nil => rfl
  | cons s rest ih =>
      rw [shownMarks_cons]
      cases rest with
      | nil => exact List.append_nil _
      | cons t rest =>
          rw [charsOf_cons, marksBehind, charsOf_cons, ih, ← List.append_assoc]
          rfl

/-- A shown namespace is a loosening of itself. -/
theorem loosens_shownMarks (segments : List String) : Loosens segments (shownMarks segments) :=
  ⟨List.Sublist.refl _, namesOf_shownMarks segments⟩

theorem textOf_shownMarks (segments : List String) :
    textOf (shownMarks segments) = (ofSegments segments).toText :=
  congrArg String.ofList (charsOf_shownMarks segments)

/-! ## Reading in pieces -/

/-- The segment that a piece between two separators names. -/
def segmentOfPiece? (piece : List Char) : Option String :=
  if (Text.trim piece).isEmpty then none else some (String.ofList (Text.trim piece))

theorem segmentsOfText_ofList (cs : List Char) :
    segmentsOfText (String.ofList cs) = (Text.splitAtPair ':' cs).filterMap segmentOfPiece? := by
  rw [segmentsOfText, String.toList_ofList]
  induction Text.splitAtPair ':' cs with
  | nil => rfl
  | cons p ps ih =>
      cases hp : (Text.trim p).isEmpty
      · rw [List.filterMap_cons_some (by rw [segmentOfPiece?, hp]; rfl), ← ih, List.map_cons,
          List.filter_cons_of_pos (by rw [hp]; rfl), List.map_cons]
      · rw [List.filterMap_cons_none (by rw [segmentOfPiece?, hp]; rfl), ← ih, List.map_cons,
          List.filter_cons_of_neg (by rw [hp]; decide)]

theorem blank_ne_colon {c : Char} (hc : Text.isBlank c = true) : c ≠ ':' := by
  rintro rfl
  exact absurd hc (by decide)

/-- A blank in front of a text is not read. -/
theorem segmentsOfText_blank {c : Char} (hc : Text.isBlank c = true) (cs : List Char) :
    segmentsOfText (String.ofList (c :: cs)) = segmentsOfText (String.ofList cs) := by
  obtain ⟨p, ps, hps⟩ := List.exists_cons_of_ne_nil (Text.splitAtPair_ne_nil ':' cs)
  have hpiece : segmentOfPiece? (c :: p) = segmentOfPiece? p := by
    rw [segmentOfPiece?, Text.trim_cons_blank hc, segmentOfPiece?]
  rw [segmentsOfText_ofList, segmentsOfText_ofList, Text.splitAtPair_cons_of_ne (blank_ne_colon hc),
    hps, Text.consFirst, List.filterMap_cons, List.filterMap_cons, hpiece]

/-- A separator in front of a text is not read. -/
theorem segmentsOfText_separator (cs : List Char) :
    segmentsOfText (String.ofList (separator ++ cs)) = segmentsOfText (String.ofList cs) := by
  have hsplit : Text.splitAtPair ':' (separator ++ cs) = [] :: Text.splitAtPair ':' cs :=
    Text.splitAtPair_append List.not_mem_nil cs
  rw [segmentsOfText_ofList, segmentsOfText_ofList, hsplit, List.filterMap_cons_none rfl]

section

variable {s : String} {w : List Char}

theorem colon_not_mem_padded (hs : IsSegment s) (hw : ∀ c ∈ w, Text.isBlank c = true) :
    ':' ∉ s.toList ++ w := by
  intro hmem
  rcases List.mem_append.mp hmem with hmem | hmem
  · exact hs.colon hmem
  · exact blank_ne_colon (hw ':' hmem) rfl

theorem segmentOfPiece?_padded (hs : IsSegment s) (hw : ∀ c ∈ w, Text.isBlank c = true) :
    segmentOfPiece? (s.toList ++ w) = some s := by
  have hne : s.toList ≠ [] := by simpa using hs.nonempty
  rw [segmentOfPiece?, Text.trim_append_blanks hw, hs.trimmed, String.ofList_toList,
    if_neg (by simpa using hne)]

/-- A segment with blanks behind it is read at the end of a text. -/
theorem segmentsOfText_padded (hs : IsSegment s) (hw : ∀ c ∈ w, Text.isBlank c = true) :
    segmentsOfText (String.ofList (s.toList ++ w)) = [s] := by
  rw [segmentsOfText_ofList, Text.splitAtPair_of_not_mem (colon_not_mem_padded hs hw),
    List.filterMap_cons_some (segmentOfPiece?_padded hs hw), List.filterMap_nil]

/-- A segment with blanks behind it is read in front of a separator. -/
theorem segmentsOfText_padded_separator (hs : IsSegment s) (hw : ∀ c ∈ w, Text.isBlank c = true)
    (cs : List Char) : segmentsOfText (String.ofList (s.toList ++ w ++ (separator ++ cs))) =
      s :: segmentsOfText (String.ofList cs) := by
  have hsplit : Text.splitAtPair ':' (s.toList ++ w ++ (separator ++ cs)) =
      (s.toList ++ w) :: Text.splitAtPair ':' cs :=
    Text.splitAtPair_append (colon_not_mem_padded hs hw) cs
  rw [segmentsOfText_ofList, segmentsOfText_ofList, hsplit,
    List.filterMap_cons_some (segmentOfPiece?_padded hs hw)]

end

/-! ## Reading a looser text -/

/-- The marks behind a segment of a looser text, where `segments` are still to come. -/
structure LoosensBehind (segments : List String) (marks : List Mark) : Prop where
  kept : (marksBehind segments).Sublist marks
  named : namesOf marks = segments

section

variable {segments : List String} {marks : List Mark}

/-- A shown namespace starts with a segment, so another mark in front has been added. -/
theorem Loosens.of_added {m : Mark} (hm : m.segment? = none) (h : Loosens segments (m :: marks)) :
    Loosens segments marks := by
  refine ⟨?_, (namesOf_added hm marks).symm.trans h.named⟩
  cases segments with
  | nil => exact List.nil_sublist marks
  | cons s rest =>
      have hkept := h.kept
      have hne : Mark.segment s ≠ m := fun heq => by cases heq ▸ hm
      rw [shownMarks_cons] at hkept ⊢
      exact hkept.of_cons_of_ne hne

theorem Loosens.of_segment {s : String} (h : Loosens segments (.segment s :: marks)) :
    ∃ rest, segments = s :: rest ∧ LoosensBehind rest marks := by
  have hnamed : s :: namesOf marks = segments := h.named
  have hkept := h.kept
  rw [← hnamed, shownMarks_cons] at hkept
  exact ⟨_, hnamed.symm, List.cons_sublist_cons.mp hkept, rfl⟩

theorem LoosensBehind.of_blank {c : Char} {hc : Text.isBlank c = true}
    (h : LoosensBehind segments (.blank c hc :: marks)) : LoosensBehind segments marks := by
  refine ⟨?_, h.named⟩
  cases segments with
  | nil => exact List.nil_sublist marks
  | cons s rest =>
      have hne : Mark.separator ≠ .blank c hc := nofun
      exact List.Sublist.of_cons_of_ne hne h.kept

/-- The first separator is enough for the next segment; a later one has been added. -/
theorem LoosensBehind.of_separator (h : LoosensBehind segments (.separator :: marks)) :
    Loosens segments marks := by
  refine ⟨?_, h.named⟩
  cases segments with
  | nil => exact List.nil_sublist marks
  | cons s rest => exact List.cons_sublist_cons.mp h.kept

/-- No segment comes right behind another one. -/
theorem LoosensBehind.not_segment {s : String} :
    ¬ LoosensBehind segments (.segment s :: marks) := by
  intro h
  have hnamed : s :: namesOf marks = segments := h.named
  cases segments with
  | nil => cases hnamed
  | cons t rest =>
      have hne : Mark.separator ≠ .segment s := nofun
      have hkept : (shownMarks (t :: rest)).Sublist marks :=
        List.sublist_of_cons_sublist (List.Sublist.of_cons_of_ne hne h.kept)
      -- one segment would stand in front of all those that are still to come
      have hle := (hkept.filterMap Mark.segment?).length_le
      rw [← namesOf, ← namesOf, namesOf_shownMarks, ← hnamed, List.length_cons] at hle
      exact Nat.not_succ_le_self _ hle

/-- What is read from the marks of a looser text, and from marks behind a segment that has blanks
    behind it. -/
theorem segmentsOfText_charsOf (marks : List Mark) :
    (∀ segments, (∀ s ∈ segments, IsSegment s) → Loosens segments marks →
      segmentsOfText (String.ofList (charsOf marks)) = segments) ∧
    (∀ s w segments, IsSegment s → (∀ c ∈ w, Text.isBlank c = true) →
      (∀ t ∈ segments, IsSegment t) → LoosensBehind segments marks →
      segmentsOfText (String.ofList (s.toList ++ w ++ charsOf marks)) = s :: segments) := by
  -- both halves at once: a segment leads from the first to the second, a separator leads back
  induction marks with
  | nil =>
      refine ⟨fun segments _ h => h.named, fun s w segments hs hw _ h => ?_⟩
      rw [charsOf_nil, List.append_nil, segmentsOfText_padded hs hw, ← h.named]
      rfl
  | cons m marks ih =>
      obtain ⟨ihFront, ihBehind⟩ := ih
      cases m with
      | blank c hc =>
          refine ⟨fun segments hsegments h => ?_, fun s w segments hs hw hsegments h => ?_⟩
          · rw [← ihFront segments hsegments (h.of_added rfl)]
            exact segmentsOfText_blank hc _
          · -- the blank joins the piece of the segment
            have hw' : ∀ d ∈ w ++ [c], Text.isBlank d = true := by
              intro d hd
              rcases List.mem_append.mp hd with hd | hd
              · exact hw d hd
              · exact List.mem_singleton.mp hd ▸ hc
            have hread := ihBehind s (w ++ [c]) segments hs hw' hsegments h.of_blank
            rwa [← List.append_assoc, List.append_assoc (s.toList ++ w)] at hread
      | separator =>
          refine ⟨fun segments hsegments h => ?_, fun s w segments hs hw hsegments h => ?_⟩
          · rw [← ihFront segments hsegments (h.of_added rfl)]
            exact segmentsOfText_separator _
          · rw [← ihFront segments hsegments h.of_separator]
            exact segmentsOfText_padded_separator hs hw _
      | segment t =>
          refine ⟨fun segments hsegments h => ?_, fun _ _ _ _ _ _ h => h.not_segment.elim⟩
          obtain ⟨rest, rfl, hbehind⟩ := h.of_segment
          obtain ⟨ht, hrest⟩ := List.forall_mem_cons.mp hsegments
          have hread := ihBehind t [] rest ht (fun _ hc => absurd hc List.not_mem_nil) hrest hbehind
          rwa [List.append_nil] at hread

/-- A looser text names the same segments. -/
theorem segmentsOfText_of_loosens (hsegments : ∀ s ∈ segments, IsSegment s)
    (h : Loosens segments marks) : segmentsOfText (textOf marks) = segments :=
  (segmentsOfText_charsOf marks).1 segments hsegments h

end

/-! ## The marks of a text -/

/-- Blanks are marks of their own. -/
theorem exists_blank_marks {cs : List Char} (h : ∀ c ∈ cs, Text.isBlank c = true) :
    ∃ marks, charsOf marks = cs ∧ namesOf marks = [] := by
  induction cs with
  | nil => exact ⟨[], rfl, rfl⟩
  | cons c rest ih =>
      obtain ⟨hc, hrest⟩ := List.forall_mem_cons.mp h
      obtain ⟨marks, hchars, hnamed⟩ := ih hrest
      exact ⟨.blank c hc :: marks, congrArg (c :: ·) hchars, hnamed⟩

/-- A piece is made of blanks and of the segment that it names, if it names one. -/
theorem exists_piece_marks (piece : List Char) : ∃ marks, charsOf marks = piece ∧
    Loosens (segmentOfPiece? piece).toList marks := by
  obtain ⟨before, after, hbefore, hafter, hpiece⟩ := Text.exists_around_trim piece
  obtain ⟨front, hfront, hfrontNamed⟩ := exists_blank_marks hbefore
  obtain ⟨back, hback, hbackNamed⟩ := exists_blank_marks hafter
  rw [segmentOfPiece?]
  split
  · next hempty =>
      -- nothing is left between the blanks
      refine ⟨front ++ back, ?_, List.nil_sublist _, ?_⟩
      · rw [charsOf_append, hfront, hback, hpiece, List.isEmpty_iff.mp hempty, List.append_nil]
      · rw [namesOf_append, hfrontNamed, hbackNamed]
        rfl
  · refine ⟨front ++ .segment (String.ofList (Text.trim piece)) :: back, ?_, ?_, ?_⟩
    · rw [charsOf_append, charsOf_cons, Mark.chars, String.toList_ofList, hfront, hback,
        ← List.append_assoc]
      exact hpiece.symm
    · exact List.singleton_sublist.mpr (List.mem_append_right front List.mem_cons_self)
    · rw [namesOf_append, namesOf_segment, hfrontNamed, hbackNamed]
      rfl

/-- A separator between two shown namespaces shows both; it is one too many if one of them is
    empty. -/
theorem shownMarks_append (front back : List String) :
    (shownMarks (front ++ back)).Sublist (shownMarks front ++ .separator :: shownMarks back) := by
  induction front with
  | nil => exact List.sublist_cons_self _ _
  | cons s rest ih =>
      rw [List.cons_append, shownMarks_cons, shownMarks_cons, List.cons_append]
      refine List.Sublist.cons_cons _ ?_
      -- the separator stands between the last segment in front and the first one behind
      cases rest with
      | nil =>
          cases back with
          | nil => exact List.nil_sublist _
          | cons t back => exact List.Sublist.refl _
      | cons t rest => exact List.Sublist.cons_cons _ ih

/-- Looser texts with a separator between them. -/
theorem Loosens.append {front back : List String} {marks marks' : List Mark}
    (h : Loosens front marks) (h' : Loosens back marks') :
    Loosens (front ++ back) (marks ++ .separator :: marks') := by
  refine ⟨(shownMarks_append front back).trans (h.kept.append (h'.kept.cons_cons _)), ?_⟩
  rw [namesOf_append, namesOf_added rfl, h.named, h'.named]

/-- The pieces between separators give the marks of the text. -/
theorem exists_joined_marks {ps : List (List Char)} (hne : ps ≠ []) : ∃ marks,
    charsOf marks = Text.join separator ps ∧ Loosens (ps.filterMap segmentOfPiece?) marks := by
  induction ps with
  | nil => exact absurd rfl hne
  | cons p rest ih =>
      obtain ⟨front, hfront, hfrontLoose⟩ := exists_piece_marks p
      have hnames : (p :: rest).filterMap segmentOfPiece? =
          (segmentOfPiece? p).toList ++ rest.filterMap segmentOfPiece? := by
        rw [List.filterMap_cons]
        cases segmentOfPiece? p <;> rfl
      rw [hnames]
      cases rest with
      | nil => exact ⟨front, hfront, by rwa [List.filterMap_nil, List.append_nil]⟩
      | cons q rest =>
          obtain ⟨back, hback, hbackLoose⟩ := ih (List.cons_ne_nil q rest)
          refine ⟨front ++ .separator :: back, ?_, hfrontLoose.append hbackLoose⟩
          rw [charsOf_append, charsOf_cons, hfront, hback, Text.join, List.append_assoc]
          rfl

/-- **Every text is a loosening of what is read from it.** -/
theorem exists_marks (text : String) :
    ∃ marks, textOf marks = text ∧ Loosens (segmentsOfText text) marks := by
  obtain ⟨marks, hchars, hloose⟩ := exists_joined_marks (Text.splitAtPair_ne_nil ':' text.toList)
  refine ⟨marks, ?_, ?_⟩
  · rw [textOf, hchars, separator, Text.join_splitAtPair, String.ofList_toList]
  · rwa [← segmentsOfText_ofList, String.ofList_toList] at hloose

/-! ## Reading a namespace -/

theorem parse_of_segments {text : String} (h : segmentsOfText text ≠ []) :
    parse text = ofSegments (segmentsOfText text) := by
  rw [parse]
  split
  · next hnil => exact absurd hnil h
  · rfl

theorem parse_of_no_segments {text : String} (h : segmentsOfText text = []) :
    parse text = crateRoot := by
  rw [parse, h]

theorem parse_of_loosens {segments : List String} {marks : List Mark} (hne : segments ≠ [])
    (hsegments : ∀ s ∈ segments, IsSegment s) (h : Loosens segments marks) :
    parse (textOf marks) = ofSegments segments := by
  have hread := segmentsOfText_of_loosens hsegments h
  rw [parse_of_segments (hread ▸ hne), hread]

/-- A text of blanks and separators is the root of the crate. -/
theorem parse_of_unnamed {marks : List Mark} (h : ∀ m ∈ marks, m.segment? = none) :
    parse (textOf marks) = crateRoot :=
  parse_of_no_segments (segmentsOfText_of_loosens (fun _ hs => absurd hs List.not_mem_nil)
    ⟨List.nil_sublist _, List.filterMap_eq_nil_iff.mpr h⟩)

/-- **A namespace reads back from its text**, unless it is kept as written. -/
theorem parse_toText {ns : Namespace} (hwritten : ns.asWritten = false) (hne : ns.segments ≠ [])
    (h : ∀ s ∈ ns.segments, IsSegment s) : parse ns.toText = ns := by
  obtain ⟨segments, asWritten⟩ := ns
  obtain rfl : asWritten = false := hwritten
  have hread := parse_of_loosens hne h (loosens_shownMarks segments)
  rwa [textOf_shownMarks] at hread

/-- **The spellings of a namespace.** A namespace whose segments are not empty, hold no colon and have
    no blanks around them is read from the text it is shown as, and from every text that comes from
    that one by adding blanks around segments and separators; a text of blanks and separators alone
    is the root of the crate. -/
theorem spellings_read_back :
    (∀ segments, segments ≠ [] → (∀ s ∈ segments, IsSegment s) →
      parse (ofSegments segments).toText = ofSegments segments ∧
        ∀ marks, Loosens segments marks → parse (textOf marks) = ofSegments segments) ∧
    ∀ marks : List Mark, (∀ m ∈ marks, m.segment? = none) → parse (textOf marks) = crateRoot := by
  refine ⟨fun segments hne hsegments => ⟨?_, fun marks h => ?_⟩, fun marks h => ?_⟩
  · exact parse_toText rfl hne hsegments
  · exact parse_of_loosens hne hsegments h
  · exact parse_of_unnamed h

/-- A loosening of `std::my fmt`: separators at both ends, a piece of blanks in the middle and an
    ideographic blank in front of `my`. -/
def looseMarks : List Mark :=
  [.blank ' ' rfl, .separator, .segment "std", .blank ' ' rfl, .separator, .blank ' ' rfl, .separator,
    .blank '\u3000' rfl, .segment "my fmt", .separator]

theorem spellings_read_back_loose :
    (∀ s ∈ ["std", "my fmt"], IsSegment s) ∧
      parse "std::my fmt" = ofSegments ["std", "my fmt"] ∧
      Loosens ["std", "my fmt"] looseMarks ∧
      parse " ::std :: ::\u3000my fmt::" = ofSegments ["std", "my fmt"] ∧
      parse " :: " = crateRoot := by
  have hsegments : ∀ s ∈ ["std", "my fmt"], IsSegment s :=
    List.forall_mem_cons.mpr ⟨⟨by decide, by decide, by decide⟩,
      List.forall_mem_singleton.mpr ⟨by decide, by decide, by decide⟩⟩
  have hloose : Loosens ["std", "my fmt"] looseMarks := ⟨by decide, rfl⟩
  obtain ⟨hread, hempty⟩ := spellings_read_back
  obtain ⟨hshown, hloosened⟩ := hread ["std", "my fmt"] (List.cons_ne_nil _ _) hsegments
  exact ⟨hsegments, hshown, hloose, hloosened looseMarks hloose,
    hempty [.blank ' ' rfl, .separator, .blank ' ' rfl] (by decide)⟩

/-- **Nothing else is read as the namespace**: exactly its spellings are, and for the root of the
    crate also the texts of blanks and separators alone. -/
theorem parse_eq_iff {segments : List String} (hne : segments ≠ [])
    (hsegments : ∀ s ∈ segments, IsSegment s) (text : String) :
    parse text = ofSegments segments ↔ ∃ marks, textOf marks = text ∧
      (Loosens segments marks ∨ segments = ["crate"] ∧ ∀ m ∈ marks, m.segment? = none) := by
  constructor
  · intro hparse
    obtain ⟨marks, rfl, hloose⟩ := exists_marks text
    refine ⟨marks, rfl, ?_⟩
    by_cases hread : segmentsOfText (textOf marks) = []
    · -- a text without segments is the root of the crate, which may be what was asked for
      rw [parse_of_no_segments hread] at hparse
      rw [hread] at hloose
      exact Or.inr ⟨(congrArg Namespace.segments hparse).symm,
        List.filterMap_eq_nil_iff.mp hloose.named⟩
    · rw [parse_of_segments hread] at hparse
      rw [show segmentsOfText (textOf marks) = segments from
        congrArg Namespace.segments hparse] at hloose
      exact Or.inl hloose
  · rintro ⟨marks, rfl, hloose | ⟨rfl, hunnamed⟩⟩
    · exact parse_of_loosens hne hsegments hloose
    · exact parse_of_unnamed hunnamed

end Namespace

end ObservableStore
