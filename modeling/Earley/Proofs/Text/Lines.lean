import Earley.Proofs.Text.Pieces
import Earley.Text.Source
import Mathlib.Data.List.Induction

namespace Earley.Text

variable {σ ε : Type} {read : σ → List Char → σ × Option ε}

/-- A line that says nothing is passed over, but it counts as a line. -/
theorem readLinesFrom_silent {raw : List Char} (h : isSilent (trim raw) = true) (number : Nat)
    (state : σ) (rest : List (List Char)) :
    readLinesFrom read number state (raw :: rest) = readLinesFrom read (number + 1) state rest := by
  rw [readLinesFrom, if_pos h]

/-- After a line without a fault, the others are read from what it has left. -/
theorem readLinesFrom_cons {raw : List Char} {state next : σ} (h : isSilent (trim raw) = false)
    (hread : read state (trim raw) = (next, none)) (number : Nat) (rest : List (List Char)) :
    readLinesFrom read number state (raw :: rest) = readLinesFrom read (number + 1) next rest := by
  rw [readLinesFrom, if_neg (by simp [h]), hread]

/-- Reading depends on lines only through what is left of them without the blanks around them. -/
theorem readLinesFrom_congr {ls ls' : List (List Char)} (h : ls.map trim = ls'.map trim)
    (number : Nat) (state : σ) :
    readLinesFrom read number state ls = readLinesFrom read number state ls' := by
  induction ls generalizing ls' number state with
  | nil => rw [List.map_eq_nil_iff.1 h.symm]
  | cons raw rest ih =>
    obtain ⟨raw', rest', rfl, hraw, hrest⟩ := List.map_eq_cons_iff.1 h.symm
    rw [readLinesFrom, readLinesFrom, hraw]
    split
    · exact ih hrest.symm (number + 1) state
    · split
      · exact ih hrest.symm (number + 1) _
      · rfl

theorem lines_cons_newline (cs : List Char) : lines ('\n' :: cs) = [] :: lines cs := rfl

private theorem lines_append_newline (cs : List Char) : lines (cs ++ ['\n']) = lines cs ++ [[]] :=
  pieces_append_cons cs [] rfl

/-- A character at the front of a text belongs to the first line, if it is no line feed. -/
theorem lines_cons {c : Char} (hne : c ≠ '\n') (cs : List Char) :
    ∃ l more, lines cs = l :: more ∧ lines (c :: cs) = (c :: l) :: more :=
  pieces_cons (· == '\n') (beq_false_of_ne hne) cs

private theorem lines_append_singleton {c : Char} (hne : c ≠ '\n') (cs : List Char) :
    ∃ before last, lines cs = before ++ [last] ∧ lines (cs ++ [c]) = before ++ [last ++ [c]] :=
  pieces_append_singleton (· == '\n') (beq_false_of_ne hne) cs

/-- Blanks in front of a text only count as lines. -/
theorem readLinesFrom_trimLeft (number : Nat) (state : σ) (cs : List Char) :
    readLinesFrom read (number + (cs.takeWhile isBlank).count '\n') state (lines (trimLeft cs)) =
      readLinesFrom read number state (lines cs) := by
  induction cs generalizing number with
  | nil => rfl
  | cons c rest ih =>
    by_cases hblank : isBlank c = true
    · rw [trimLeft_cons hblank, List.takeWhile_cons_of_pos hblank]
      by_cases hnewline : c = '\n'
      · subst hnewline
        rw [lines_cons_newline, readLinesFrom_silent rfl, ← ih, List.count_cons_self]
        congr 1
        omega
      · rw [List.count_cons_of_ne hnewline, ih]
        obtain ⟨l, more, heq, heq'⟩ := lines_cons hnewline rest
        rw [heq, heq']
        refine readLinesFrom_congr ?_ number state
        simp only [List.map_cons, trim, trimLeft_cons hblank]
    · rw [trimLeft_eq_self (by simpa using hblank), List.takeWhile_cons_of_neg hblank]
      rfl

private theorem readLinesFrom_append_nil (number : Nat) (state : σ) (ls : List (List Char)) :
    readLinesFrom read number state (ls ++ [[]]) = readLinesFrom read number state ls := by
  induction ls generalizing number state with
  | nil => rfl
  | cons raw rest ih =>
    rw [List.cons_append, readLinesFrom, readLinesFrom]
    split
    · exact ih (number + 1) state
    · split
      · exact ih (number + 1) _
      · rfl

/-- Blanks behind a text say nothing. -/
theorem readLinesFrom_trimRight (number : Nat) (state : σ) (cs : List Char) :
    readLinesFrom read number state (lines (trimRight cs)) =
      readLinesFrom read number state (lines cs) := by
  induction cs using List.reverseRecOn with
  | nil => rfl
  | append_singleton cs c ih =>
    by_cases hblank : isBlank c = true
    · rw [trimRight_append_singleton hblank, ih]
      by_cases hnewline : c = '\n'
      · subst hnewline
        rw [lines_append_newline, readLinesFrom_append_nil]
      · obtain ⟨before, last, heq, heq'⟩ := lines_append_singleton hnewline cs
        rw [heq, heq']
        refine readLinesFrom_congr ?_ number state
        simp only [List.map_append, List.map_cons, List.map_nil, trim_append_singleton hblank]
    · rw [trimRight_eq_self (by simpa using hblank)]

/-- Without a fault the numbers of lines play no part. -/
theorem readLinesFrom_none {number : Nat} {state last : σ} {ls : List (List Char)}
    (h : readLinesFrom read number state ls = (last, none)) (number' : Nat) :
    readLinesFrom read number' state ls = (last, none) := by
  induction ls generalizing number number' state with
  | nil => exact h
  | cons raw rest ih =>
    rw [readLinesFrom] at h ⊢
    split at h
    · next hsilent => rw [if_pos hsilent, ih h]
    · next hspeaks =>
      rw [if_neg hspeaks]
      split at h
      · exact ih h _
      · cases h

/-- A text is read without a fault exactly when its lines are. -/
theorem readText_eq_none_iff {initial last : σ} {text : String} :
    readText read initial text = (last, none) ↔
      readLinesFrom read 1 initial (lines text.toList) = (last, none) := by
  rw [readText, trim, readLinesFrom_trimRight]
  constructor
  · intro h
    rw [← readLinesFrom_trimLeft]
    exact readLinesFrom_none h _
  · intro h
    rw [← readLinesFrom_trimLeft] at h
    exact readLinesFrom_none h _

/-- A text made of lines is read without a fault exactly when these lines are. -/
theorem readText_intercalate_iff {initial last : σ} {ls : List String}
    (h : ∀ l ∈ ls, '\n' ∉ l.toList) :
    readText read initial ("\n".intercalate ls) = (last, none) ↔
      readLinesFrom read 1 initial (ls.map String.toList) = (last, none) := by
  rw [readText_eq_none_iff, String.toList_intercalate]
  by_cases hne : ls = []
  · subst hne
    rfl
  · have hlines := lines_intercalate (List.forall_mem_map.2 h) (by simpa using hne)
    have hbreak : "\n".toList = ['\n'] := rfl
    rw [hbreak, hlines]

/-- What every line that says something keeps, all lines keep. -/
theorem readLinesFrom_induction {P : σ → Prop} {number : Nat} {state : σ} {ls : List (List Char)}
    (hstate : P state)
    (hstep : ∀ state raw, isSilent (trim raw) = false → P state → P (read state (trim raw)).1) :
    P (readLinesFrom read number state ls).1 := by
  induction ls generalizing number state with
  | nil => exact hstate
  | cons raw rest ih =>
    rw [readLinesFrom]
    split
    · exact ih hstate
    · next hspeaks =>
      have hnext := hstep state raw (by simpa using hspeaks) hstate
      split
      · next heq => exact ih (by rwa [heq] at hnext)
      · next heq => rwa [heq] at hnext

/-- So does a whole text. -/
theorem readText_induction {P : σ → Prop} {initial : σ} (text : String) (hinitial : P initial)
    (hstep : ∀ state raw, isSilent (trim raw) = false → P state → P (read state (trim raw)).1) :
    P (readText read initial text).1 :=
  readLinesFrom_induction hinitial hstep

/-- Where lines are read without a fault, each one that says something is. -/
theorem readLinesFrom_none_mem {number : Nat} {state last : σ} {ls : List (List Char)}
    (h : readLinesFrom read number state ls = (last, none)) {raw : List Char} (hraw : raw ∈ ls)
    (hspeaks : isSilent (trim raw) = false) :
    ∃ before after, read before (trim raw) = (after, none) := by
  induction ls generalizing number state with
  | nil => cases hraw
  | cons first rest ih =>
    rw [readLinesFrom] at h
    split at h
    · next hsilent =>
      rcases List.mem_cons.1 hraw with rfl | hrest
      · rw [hspeaks] at hsilent
        cases hsilent
      · exact ih h hrest
    · split at h
      · next next hread =>
        rcases List.mem_cons.1 hraw with rfl | hrest
        · exact ⟨state, next, hread⟩
        · exact ih h hrest
      · cases h

end Earley.Text
