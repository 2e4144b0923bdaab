import Earley.Proofs.Grammar.Text
import Earley.Proofs.Lexicon.Plain
import Mathlib.Data.List.TakeWhile

namespace Earley

namespace Text

variable {σ ε : Type} {read : σ → List Char → σ × Option ε} {ls rest : List (List Char)}
  {raw line : List Char} {i : Nat} {cause : ε}

/-- Whether a line is accepted or rejected does not depend on the lines before it. -/
def Stateless (read : σ → List Char → σ × Option ε) : Prop :=
  ∀ state state' line, (read state line).2 = (read state' line).2

/-- A line is passed over: it says nothing, or it is accepted. -/
def Passed (read : σ → List Char → σ × Option ε) (raw : List Char) : Prop :=
  isSilent (trim raw) = true ∨ ∀ state, (read state (trim raw)).2 = none

/-- Line `i` is the first that says something and is rejected, and it reads `line` without the blanks
around it. -/
structure FirstFault (read : σ → List Char → σ × Option ε) (ls : List (List Char)) (i : Nat)
    (line : List Char) (cause : ε) : Prop where
  trimmed : ls[i]?.map trim = some line
  speaks : isSilent line = false
  rejected : ∀ state, (read state line).2 = some cause
  first : ∀ j < i, ∀ raw, ls[j]? = some raw → Passed read raw

/-- The count of blank lines before the first line that is not blank. -/
def blankLines (ls : List (List Char)) : Nat :=
  (ls.takeWhile fun raw => (trim raw).isEmpty).length

private theorem firstFault_cons_of_passed (state : σ) (h : Passed read raw) :
    FirstFault read (raw :: rest) i line cause ↔ ∃ k, i = k + 1 ∧ FirstFault read rest k line cause := by
  constructor
  · intro hfault
    cases i with
    | zero =>
      obtain rfl : trim raw = line := by simpa using hfault.trimmed
      rcases h with hsilent | haccepted
      · rw [hfault.speaks] at hsilent
        cases hsilent
      · have hrejected := hfault.rejected state
        rw [haccepted] at hrejected
        cases hrejected
    | succ k =>
      refine ⟨k, rfl, by simpa using hfault.trimmed, hfault.speaks, hfault.rejected, ?_⟩
      exact fun j hj raw' hraw' => hfault.first (j + 1) (by omega) raw' (by simpa using hraw')
  · rintro ⟨k, rfl, hfault⟩
    refine ⟨by simpa using hfault.trimmed, hfault.speaks, hfault.rejected, fun j hj raw' hraw' => ?_⟩
    cases j with
    | zero =>
      obtain rfl : raw = raw' := by simpa using hraw'
      exact h
    | succ j => exact hfault.first j (by omega) raw' (by simpa using hraw')

private theorem firstFault_cons_of_rejected (state : σ) {cause' : ε} (hspeaks : isSilent (trim raw) = false)
    (hrejected : ∀ state, (read state (trim raw)).2 = some cause') :
    FirstFault read (raw :: rest) i line cause ↔ i = 0 ∧ line = trim raw ∧ cause = cause' := by
  constructor
  · intro hfault
    cases i with
    | zero =>
      obtain rfl : trim raw = line := by simpa using hfault.trimmed
      exact ⟨rfl, rfl, Option.some.inj ((hfault.rejected state).symm.trans (hrejected state))⟩
    | succ k =>
      rcases hfault.first 0 (by omega) raw (by simp) with hsilent | haccepted
      · rw [hspeaks] at hsilent
        cases hsilent
      · have hnone := haccepted state
        rw [hrejected] at hnone
        cases hnone
  · rintro ⟨rfl, rfl, rfl⟩
    exact ⟨rfl, hspeaks, hrejected, fun j hj => absurd hj (Nat.not_lt_zero j)⟩

/-- Reading lines stops at the first one that is rejected. -/
theorem readLinesFrom_fault_iff (hread : Stateless read) (number : Nat) (state : σ)
    (ls : List (List Char)) (f : LineFault ε) : (readLinesFrom read number state ls).2 = some f ↔
      ∃ i, FirstFault read ls i f.line.toList f.cause ∧ f.number = number + i := by
  induction ls generalizing number state with
  | nil =>
    constructor
    · intro h
      cases h
    · rintro ⟨i, hfault, -⟩
      simpa using hfault.trimmed
  | cons raw rest ih =>
    -- A line that is passed over only counts.
    have hpassed (h : Passed read raw) (next : σ) :
        (readLinesFrom read (number + 1) next rest).2 = some f ↔
          ∃ i, FirstFault read (raw :: rest) i f.line.toList f.cause ∧ f.number = number + i := by
      simp only [ih, firstFault_cons_of_passed state h]
      constructor
      · rintro ⟨k, hfault, hnumber⟩
        exact ⟨k + 1, ⟨k, rfl, hfault⟩, by omega⟩
      · rintro ⟨_, ⟨k, rfl, hfault⟩, hnumber⟩
        exact ⟨k, hfault, by omega⟩
    rw [readLinesFrom]
    split
    · next hsilent => exact hpassed (.inl hsilent) state
    · next hspeaks =>
      rw [Bool.not_eq_true] at hspeaks
      split
      · next next heq =>
        refine hpassed (.inr fun state' => ?_) next
        rw [hread state' state, heq]
      · next next cause heq =>
        have hrejected (state' : σ) : (read state' (trim raw)).2 = some cause := by
          rw [hread state' state, heq]
        simp only [firstFault_cons_of_rejected state hspeaks hrejected]
        obtain ⟨number', line', cause'⟩ := f
        constructor
        · rintro ⟨⟩
          exact ⟨0, ⟨rfl, String.toList_ofList, rfl⟩, rfl⟩
        · rintro ⟨_, ⟨rfl, hline, rfl⟩, hnumber⟩
          rw [Option.some.injEq, LineFault.mk.injEq, ← hline, String.ofList_toList]
          exact ⟨hnumber.symm, rfl, rfl⟩

private theorem trim_of_blank {cs : List Char} (h : ∀ c ∈ cs, isBlank c = true) : trim cs = [] := by
  have hnil : trimLeft cs = [] := List.dropWhile_eq_nil_iff.2 h
  rw [trim, hnil]
  rfl

private theorem trim_cons_ne_nil {c : Char} (hc : isBlank c = false) (cs : List Char) :
    trim (c :: cs) ≠ [] := by
  have hsame : trimLeft (c :: cs) = c :: cs := trimLeft_eq_self (by rintro _ ⟨⟩; exact hc)
  have hmem : c ∈ (c :: cs).reverse := by simp
  rw [trim, hsame, trimRight]
  intro hnil
  have hall := List.dropWhile_eq_nil_iff.1 (List.reverse_eq_nil_iff.1 hnil) c hmem
  rw [hc] at hall
  cases hall

/-- The blanks in front of a text fill the blank lines that it begins with. -/
theorem blankLines_lines {cs : List Char} (h : ∃ c ∈ cs, isBlank c = false) :
    blankLines (lines cs) = (cs.takeWhile isBlank).count '\n' := by
  induction cs with
  | nil =>
    obtain ⟨c, hc, -⟩ := h
    cases hc
  | cons c rest ih =>
    by_cases hblank : isBlank c = true
    · have hrest : ∃ d ∈ rest, isBlank d = false := by
        obtain ⟨d, hd, hdblank⟩ := h
        rcases List.mem_cons.1 hd with rfl | hd
        · rw [hblank] at hdblank
          cases hdblank
        · exact ⟨d, hd, hdblank⟩
      rw [List.takeWhile_cons_of_pos hblank]
      by_cases hnewline : c = '\n'
      · subst hnewline
        rw [lines_cons_newline, List.count_cons_self, ← ih hrest]
        rfl
      · obtain ⟨l, more, heq, heq'⟩ := lines_cons hnewline rest
        rw [List.count_cons_of_ne hnewline, ← ih hrest, heq, heq', blankLines, blankLines]
        have hsame : trim (c :: l) = trim l := by rw [trim, trim, trimLeft_cons hblank]
        simp only [List.takeWhile_cons, hsame]
        split <;> rfl
    · have hsolid : isBlank c = false := by simpa using hblank
      have hnewline : c ≠ '\n' := by
        rintro rfl
        exact hblank (by decide)
      obtain ⟨l, more, -, heq⟩ := lines_cons hnewline rest
      rw [List.takeWhile_cons_of_neg hblank, heq, blankLines, List.takeWhile_cons_of_neg]
      · rfl
      · simpa using trim_cons_ne_nil hsolid l

private theorem exists_solid_of_firstFault {cs : List Char} (h : FirstFault read (lines cs) i line cause) :
    ∃ c ∈ cs, isBlank c = false := by
  by_contra hnone
  obtain ⟨raw, hraw, htrim⟩ := Option.map_eq_some_iff.1 h.trimmed
  have hblank : ∀ c ∈ raw, isBlank c = true := by
    intro c hc
    rw [← Bool.not_eq_false]
    exact fun hsolid => hnone ⟨c, (mem_of_mem_pieces (List.mem_of_getElem? hraw) c hc).1, hsolid⟩
  have hspeaks := h.speaks
  rw [← htrim, trim_of_blank hblank] at hspeaks
  cases hspeaks

/-- The fault of a text is that of the first line that is rejected, and its number leaves out the blank
lines that come first. -/
theorem readText_fault_iff (hread : Stateless read) (initial : σ) (text : String) (f : LineFault ε) :
    (readText read initial text).2 = some f ↔
      ∃ i, FirstFault read (lines text.toList) i f.line.toList f.cause ∧ 1 ≤ f.number ∧
        f.number + blankLines (lines text.toList) = i + 1 := by
  have htrimmed : (readText read initial text).2 = some f ↔
      ∃ i, FirstFault read (lines (trimLeft text.toList)) i f.line.toList f.cause ∧ f.number = 1 + i := by
    rw [readText, trim, readLinesFrom_trimRight, readLinesFrom_fault_iff hread]
  -- With the blank lines counted, the same reading is one of all lines.
  have hwhole := readLinesFrom_fault_iff hread 1 initial (lines text.toList)
    { f with number := f.number + (text.toList.takeWhile isBlank).count '\n' }
  rw [← readLinesFrom_trimLeft, readLinesFrom_fault_iff hread] at hwhole
  rw [htrimmed]
  constructor
  · rintro ⟨k, hfault, hnumber⟩
    obtain ⟨i, hfault', hnumber'⟩ := hwhole.1 ⟨k, hfault, by dsimp only; omega⟩
    refine ⟨i, hfault', by omega, ?_⟩
    rw [blankLines_lines (exists_solid_of_firstFault hfault')]
    dsimp only at hnumber'
    omega
  · rintro ⟨i, hfault, hpos, hnumber⟩
    rw [blankLines_lines (exists_solid_of_firstFault hfault)] at hnumber
    obtain ⟨k, hfault', hnumber'⟩ := hwhole.2 ⟨i, hfault, by dsimp only; omega⟩
    exact ⟨k, hfault', by dsimp only at hnumber'; omega⟩

end Text

open Text

namespace Grammar

private theorem addAlternatives_fault (lhs : Symbol) (weight : Weight) (g g' : Grammar)
    (parts : List (List Char)) :
    (addAlternatives lhs weight g parts).2 = (addAlternatives lhs weight g' parts).2 := by
  induction parts generalizing g g' with
  | nil => rfl
  | cons part rest ih =>
    rw [addAlternatives, addAlternatives]
    cases readAlternative part with
    | error fault => rfl
    | ok rhs =>
      dsimp only
      by_cases hlhs : lhs.isCategory = true
      · by_cases hrhs : rhs = []
        · have hadd (g : Grammar) : g.add lhs rhs (.number weight) = .error (.emptyRhs lhs) := by
            rw [add, dif_pos hlhs, dif_pos hrhs]
          rw [hadd, hadd]
        · obtain ⟨next, hnext, -⟩ := exists_add hlhs hrhs g weight
          obtain ⟨next', hnext', -⟩ := exists_add hlhs hrhs g' weight
          rw [hnext, hnext']
          exact ih next next'
      · have hadd (g : Grammar) : g.add lhs rhs (.number weight) = .error (.notCategory lhs) := by
          rw [add, dif_neg hlhs]
        rw [hadd, hadd]

/-- What is wrong with a line does not depend on the rules before it. -/
theorem readLine_stateless : Stateless readLine := by
  intro g g' line
  have hbody (body : List Char) (weight : Weight) :
      (readBody g body weight).2 = (readBody g' body weight).2 := by
    rw [readBody, readBody]
    split
    · rfl
    · split
      · exact addAlternatives_fault _ _ _ _ _
      · rfl
  cases hsplit : splitWeight? line with
  | none =>
    rw [readLine_bare hsplit, readLine_bare hsplit]
    exact hbody _ _
  | some parts =>
    rw [readLine_weighted hsplit, readLine_weighted hsplit]
    exact hbody _ _

/-- A text is refused as a grammar with the first fault of its lines. -/
theorem ofText_eq_error_iff {text : String} {f : LineFault LineError} :
    ofText text = .error f ↔ (readText readLine empty text).2 = some f := by
  rw [ofText, readAll]
  obtain ⟨found, fault⟩ := readText readLine empty text
  cases fault <;> simp

end Grammar

namespace Lexicon

/-- What is wrong with a line does not depend on the readings before it. -/
theorem readLine_stateless : Stateless readLine := by
  intro lex lex' line
  rw [readLine, readLine]
  split
  · rfl
  · split <;> rfl

/-- A text is refused as a lexicon with the first fault of its lines. -/
theorem ofText_eq_error_iff {text : String} {f : LineFault LineError} :
    ofText text = .error f ↔ (readText readLine empty text).2 = some f := by
  rw [ofText, readAll]
  obtain ⟨found, fault⟩ := readText readLine empty text
  cases fault <;> simp

end Lexicon

/-- A text of rules or readings has a fault exactly when one of its lines is rejected. The fault holds
the first of these lines, without the blanks around it, and the number of that line among those that
are left when the blank lines at the beginning of the text are not counted. -/
theorem Text.error_names_line (text : String) :
    (∀ f, Grammar.ofText text = .error f ↔
      ∃ i, FirstFault Grammar.readLine (lines text.toList) i f.line.toList f.cause ∧ 1 ≤ f.number ∧
        f.number + blankLines (lines text.toList) = i + 1) ∧
    (∀ f, Lexicon.ofText text = .error f ↔
      ∃ i, FirstFault Lexicon.readLine (lines text.toList) i f.line.toList f.cause ∧ 1 ≤ f.number ∧
        f.number + blankLines (lines text.toList) = i + 1) := by
  constructor
  · intro f
    rw [Grammar.ofText_eq_error_iff, readText_fault_iff Grammar.readLine_stateless]
  · intro f
    rw [Lexicon.ofText_eq_error_iff, readText_fault_iff Lexicon.readLine_stateless]

/-- Behind a blank line the fault has the number of that line, and not of its own. -/
theorem Text.error_behind_blank :
    Grammar.ofText "\nS NP VP" = .error ⟨1, "S NP VP", .noArrow⟩ ∧
      (lines "\nS NP VP".toList)[1 - 1]?.map trim = some [] ∧
      Lexicon.ofText "\ndog N" = .error ⟨1, "dog N", .malformed⟩ ∧
      (lines "\ndog N".toList)[1 - 1]?.map trim = some [] := by
  decide +kernel

end Earley
