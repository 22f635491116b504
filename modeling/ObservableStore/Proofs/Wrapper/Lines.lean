import ObservableStore.Proofs.Text.Split
import ObservableStore.Proofs.Token.Identifier
import ObservableStore.Wrapper.Code

/-!
# `Proofs.Wrapper.Lines` — the lines of generated code

The text of code is read line by line: as long as nothing in the code holds a line end, the lines of
the text are the lines that the code was made of, each behind the blanks of its level (`linesOf_text`).
-/

namespace ObservableStore

open Lexeme (OneLine)

/-- The lines of a text; what stands behind the last line end is a line as well. -/
def linesOf (s : String) : List String :=
  (Text.splitAtChar '\n' s.toList).map String.ofList

namespace Code

mutual

/-- The lines of a piece at a level. -/
def linesAt (level : Nat) : Code → List String
  | .line text => [indent level ++ text]
  | .blank => [""]
  | .block opening body closing =>
    (indent level ++ opening) :: (linesAllAt (level + 1) body ++ [indent level ++ closing])

/-- The lines of pieces at a level. -/
def linesAllAt (level : Nat) : List Code → List String
  | [] => []
  | c :: cs => linesAt level c ++ linesAllAt level cs

end

/-- Lines, each with its end. -/
def ended (ls : List String) : List Char := ls.flatMap fun l => l.toList ++ ['\n']

theorem ended_append (ls ms : List String) : ended (ls ++ ms) = ended ls ++ ended ms :=
  List.flatMap_append

mutual

theorem toList_textAt (level : Nat) : (c : Code) → (c.textAt level).toList = ended (c.linesAt level)
  | .line text => by simp [textAt, linesAt, ended]
  | .blank => by simp [textAt, linesAt, ended]
  | .block opening body closing => by
    have hbody := toList_textAllAt (level + 1) body
    simp only [textAt, linesAt, String.toList_append, hbody]
    simp [ended]

theorem toList_textAllAt (level : Nat) :
    (cs : List Code) → (textAllAt level cs).toList = ended (linesAllAt level cs)
  | [] => rfl
  | c :: cs => by
    rw [textAllAt, linesAllAt, String.toList_append, toList_textAt level c, toList_textAllAt level cs,
      ended_append]

end

theorem linesAllAt_append (level : Nat) (cs ds : List Code) :
    linesAllAt level (cs ++ ds) = linesAllAt level cs ++ linesAllAt level ds := by
  induction cs with
  | nil => rfl
  | cons c cs ih => rw [List.cons_append, linesAllAt, linesAllAt, ih, List.append_assoc]

theorem mem_linesAllAt {level : Nat} {cs : List Code} {l : String} :
    l ∈ linesAllAt level cs ↔ ∃ c ∈ cs, l ∈ c.linesAt level := by
  induction cs with
  | nil => simp [linesAllAt]
  | cons c cs ih => simp [linesAllAt, ih]

theorem linesAllAt_flatMap {α : Type} (level : Nat) (f : α → List Code) (as : List α) :
    linesAllAt level (as.flatMap f) = as.flatMap fun a => linesAllAt level (f a) := by
  induction as with
  | nil => rfl
  | cons a as ih => rw [List.flatMap_cons, List.flatMap_cons, linesAllAt_append, ih]

theorem splitAtChar_ended {ls : List String} (h : ∀ l ∈ ls, OneLine l.toList) :
    Text.splitAtChar '\n' (ended ls) = ls.map String.toList ++ [[]] := by
  induction ls with
  | nil => rfl
  | cons l ls ih =>
      obtain ⟨hl, hls⟩ := List.forall_mem_cons.mp h
      have hend : ended (l :: ls) = l.toList ++ '\n' :: ended ls := by simp [ended]
      have hfree : '\n' ∉ l.toList := fun hmem => (hl _ hmem).1 rfl
      rw [hend, Text.splitAtChar_append hfree, ih hls]
      rfl

/-- **The lines of a text are those of its code**, and an empty one at the end. -/
theorem linesOf_text {cs : List Code} (h : ∀ l ∈ linesAllAt 0 cs, OneLine l.toList) :
    linesOf (text cs) = linesAllAt 0 cs ++ [""] := by
  rw [linesOf, text, toList_textAllAt, splitAtChar_ended h, List.map_append, List.map_map]
  simp

end Code

end ObservableStore
