import Earley.Proofs.Text.Pieces
import Earley.Text.Lower

namespace Earley.Text

private theorem runs_apart : ∀ run ∈ caseRuns, ∀ blank ∈ blanks,
    (blank.2 : Int) < run.first + run.shift ∨ (run.last : Int) + run.shift < blank.1 := by
  decide +kernel

private theorem blanks_positive : ∀ blank ∈ blanks, 0 < blank.1 := by decide

/-- The small letter is the code point itself, or lies as far from it as its run tells. -/
theorem lowerBy_eq_or (runs : List CaseRun) (n : Nat) :
    lowerBy runs n = n ∨
      ∃ run ∈ runs, run.first ≤ n ∧ n ≤ run.last ∧ lowerBy runs n = (n + run.shift).toNat := by
  induction runs with
  | nil => exact Or.inl rfl
  | cons run rest ih =>
    rw [lowerBy]
    split
    · exact Or.inl rfl
    · next hfirst =>
      split
      · next hin =>
        have hlast := (Bool.and_eq_true_iff.1 hin).1
        exact Or.inr ⟨run, List.mem_cons_self, by omega, of_decide_eq_true hlast, rfl⟩
      · rcases ih with heq | ⟨found, hmem, hfound⟩
        · exact Or.inl heq
        · exact Or.inr ⟨found, List.mem_cons_of_mem _ hmem, hfound⟩

private theorem toNat_ofNat_eq_or (n : Nat) : (Char.ofNat n).toNat = n ∨ (Char.ofNat n).toNat = 0 := by
  by_cases hvalid : n.isValidChar
  · left
    rw [Char.ofNat, dif_pos hvalid]
    rfl
  · right
    rw [Char.ofNat, dif_neg hvalid]
    rfl

private theorem isBlank_lowerChar {c : Char} (h : isBlank c = false) : isBlank (lowerChar c) = false := by
  rcases lowerBy_eq_or caseRuns c.toNat with heq | ⟨run, hrun, hfirst, hlast, heq⟩
  · rwa [lowerChar, heq, Char.ofNat_toNat]
  · rw [← Bool.not_eq_true]
    intro hblank
    obtain ⟨blank, hmem, hlow, hhigh⟩ := Ranges.exists_of_contains hblank
    rw [lowerChar, heq] at hlow hhigh
    have hpositive := blanks_positive blank hmem
    rcases toNat_ofNat_eq_or (c.toNat + run.shift).toNat with hvalue | hzero
    · rcases runs_apart run hrun blank hmem with hlt | hlt <;> omega
    · omega

private theorem solid_lowerAfter (before : List Char) {cs : List Char} (h : Solid cs) :
    Solid (lowerAfter before cs) := by
  induction cs generalizing before with
  | nil => exact h
  | cons c rest ih =>
    rw [lowerAfter]
    refine Solid.append ?_ (ih (c :: before) fun d hd => h d (List.mem_cons_of_mem _ hd))
    split
    · split <;> decide
    · split
      · decide
      · simpa [Solid] using isBlank_lowerChar (h c List.mem_cons_self)

/-- A text without blanks at its ends has none there in lower case. -/
theorem solid_lower {s : String} (h : Solid s.toList) : Solid (lower s).toList := by
  rw [lower, String.toList_ofList]
  exact solid_lowerAfter [] h

/-- No text gets empty in lower case. -/
theorem lower_ne_empty {s : String} (h : s ≠ "") : lower s ≠ "" := by
  obtain ⟨c, rest, heq⟩ := List.exists_cons_of_ne_nil (mt String.toList_eq_nil_iff.1 h)
  rw [lower, heq, lowerAfter, ne_eq, ← String.toList_eq_nil_iff, String.toList_ofList,
    List.append_eq_nil_iff]
  rintro ⟨hsmall, -⟩
  split at hsmall
  · split at hsmall <;> cases hsmall
  · split at hsmall <;> cases hsmall

end Earley.Text
