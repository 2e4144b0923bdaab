import Earley.Binary64
import Mathlib.Data.Nat.Log
import Mathlib.Tactic.Ring

namespace Earley.Binary64

private theorem blockSize_eq : blockSize = 2 ^ 52 := rfl

private theorem blockSize_pos : 0 < blockSize := by decide

private theorem roundHalfEven_mul (num den : Nat) {k : Nat} (hk : 0 < k) :
    roundHalfEven (num * k) (den * k) = roundHalfEven num den := by
  have hfactor : 2 * (num % den * k) = 2 * (num % den) * k := by ring
  rw [roundHalfEven, roundHalfEven, Nat.mul_div_mul_right _ _ hk, Nat.mul_mod_mul_right, hfactor]
  simp only [Nat.mul_lt_mul_right hk]

private theorem nearestRank_mul (num den : Nat) {k : Nat} (hk : 0 < k) :
    nearestRank (num * k) (den * k) = nearestRank num den := by
  have hden (lost : Nat) : den * k * Nat.pow 2 lost = den * Nat.pow 2 lost * k := by ring
  rw [nearestRank, nearestRank, Nat.mul_div_mul_right _ _ hk]
  simp only [hden, roundHalfEven_mul _ _ hk]

/-- A fraction is rounded in the same way when both its parts are multiplied by one number. -/
theorem ofUnits_mul (negative : Bool) (num den : Nat) {k : Nat} (hk : 0 < k) :
    ofUnits negative (num * k) (den * k) = ofUnits negative num den := by
  rw [ofUnits, ofUnits, nearestRank_mul _ _ hk]

private theorem roundHalfEven_of_multiple (n : Nat) {den : Nat} (hden : 0 < den) :
    roundHalfEven (n * den) den = n := by
  rw [roundHalfEven, Nat.mul_div_cancel _ hden, Nat.mul_mod_left]
  exact if_pos (by simpa using hden)

/-- In the first block the magnitudes are their own ranks. -/
private theorem nearestRank_of_lt {n : Nat} (hn : n < blockSize) : nearestRank n 1 = n := by
  have hlost : n.log2 - 52 = 0 := by
    rcases Nat.eq_zero_or_pos n with rfl | hpos
    · rfl
    · have hlog := (Nat.log2_lt (k := 52) (by omega)).2 (blockSize_eq ▸ hn)
      omega
  have hround : roundHalfEven (n * 1) 1 = n := roundHalfEven_of_multiple n (by decide)
  rw [Nat.mul_one] at hround
  rw [nearestRank, Nat.div_one, hlost, Nat.zero_mul, Nat.zero_add]
  exact hround

/-- In a later block, 53 bits are kept of all magnitudes, and none that is set is lost. -/
private theorem nearestRank_shifted {m shift : Nat} (hm : m < blockSize) :
    nearestRank ((blockSize + m) * Nat.pow 2 shift) 1 = (shift + 1) * blockSize + m := by
  have hlog : ((blockSize + m) * Nat.pow 2 shift).log2 = 52 + shift := by
    have hpos : 0 < (blockSize + m) * 2 ^ shift :=
      Nat.mul_pos (Nat.add_pos_left blockSize_pos m) (Nat.pow_pos (by decide))
    refine (Nat.log2_eq_iff hpos.ne').2 ⟨?_, ?_⟩
    · rw [pow_add, ← blockSize_eq]
      exact Nat.mul_le_mul_right _ (Nat.le_add_right _ _)
    · have hdouble : 2 ^ (52 + shift + 1) = (blockSize + blockSize) * 2 ^ shift := by
        rw [blockSize_eq]
        ring
      rw [hdouble]
      exact Nat.mul_lt_mul_of_pos_right (Nat.add_lt_add_left hm _) (Nat.pow_pos (by decide))
  have hlost : 52 + shift - 52 = shift := by omega
  have hkept : roundHalfEven ((blockSize + m) * Nat.pow 2 shift) (Nat.pow 2 shift) = blockSize + m :=
    roundHalfEven_of_multiple _ (Nat.pow_pos (by decide))
  rw [nearestRank, Nat.div_one, hlog, hlost, Nat.one_mul, hkept]
  ring

private theorem nearestRank_units (rank : Nat) : nearestRank (units rank) 1 = rank := by
  by_cases hrank : rank < blockSize
  · rw [units, if_pos hrank, nearestRank_of_lt hrank]
  · have hblock : 0 < rank / blockSize := Nat.div_pos (by omega) blockSize_pos
    have hshift : rank / blockSize - 1 + 1 = rank / blockSize := by omega
    rw [units, if_neg hrank, nearestRank_shifted (Nat.mod_lt _ blockSize_pos), hshift,
      Nat.div_add_mod']

/-- A magnitude that is represented is its own nearest number. -/
theorem ofUnits_units (negative : Bool) (rank : Fin rankBound) :
    ofUnits negative (units rank) 1 = .finite negative rank := by
  rw [ofUnits, nearestRank_units, ofRank, dif_pos rank.isLt]

/-- All ranks but the lowest stand for numbers that are not zero. -/
theorem units_pos {rank : Nat} (h : 0 < rank) : 0 < units rank := by
  rw [units]
  split
  · exact h
  · exact Nat.mul_pos (Nat.add_pos_left blockSize_pos _) (Nat.pow_pos (by decide))

/-- Magnitudes are below `2 ^ 1024`. -/
theorem units_lt {rank : Nat} (h : rank < rankBound) : units rank < 2 ^ 1024 * unitsPerOne := by
  obtain ⟨top, htop⟩ : ∃ top, top = 2045 := ⟨_, rfl⟩
  have hunit : 2 ^ 1024 * unitsPerOne = (blockSize + blockSize) * 2 ^ top := by
    subst htop
    decide +kernel
  have hmod := Nat.mod_lt rank blockSize_pos
  have hblock : rank / blockSize - 1 ≤ top := by
    have hlt : rank / blockSize < 2047 := Nat.div_lt_of_lt_mul (by rwa [Nat.mul_comm])
    omega
  rw [units, hunit]
  split
  · calc rank < blockSize + blockSize := by omega
      _ ≤ (blockSize + blockSize) * 2 ^ top := Nat.le_mul_of_pos_right _ (Nat.pow_pos (by decide))
  · calc (blockSize + rank % blockSize) * 2 ^ (rank / blockSize - 1)
        < (blockSize + blockSize) * 2 ^ (rank / blockSize - 1) :=
          Nat.mul_lt_mul_of_pos_right (by omega) (Nat.pow_pos (by decide))
      _ ≤ (blockSize + blockSize) * 2 ^ top :=
          Nat.mul_le_mul_left _ (Nat.pow_le_pow_right (by decide) hblock)

end Earley.Binary64
