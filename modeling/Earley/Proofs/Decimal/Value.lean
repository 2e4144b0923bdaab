import Earley.Decimal.Shortest
import Earley.Proofs.Decimal.Nearest
import Earley.Proofs.Decimal.Numeral

namespace Earley.Decimal

open Binary64

namespace Written

/-- Zero is zero with any exponent; it keeps its sign. -/
theorem toBinary64_zero (negative : Bool) (exponent : Int) :
    (⟨negative, 0, exponent⟩ : Written).toBinary64 = ofRank negative 0 := by
  simp [toBinary64]

/-- The count of digits before the point, which tells numbers out of range. -/
def size (w : Written) : Int := (numeral w.digits).length + w.exponent

/-- The nearest number to a decimal number of moderate size. -/
def rounded (w : Written) : Binary64 :=
  match w.exponent with
  | .ofNat e => ofUnits w.negative (w.digits * Nat.pow 10 e * unitsPerOne) 1
  | .negSucc e => ofUnits w.negative (w.digits * unitsPerOne) (Nat.pow 10 (e + 1))

private theorem toBinary64_eq (w : Written) :
    w.toBinary64 = if w.digits = 0 ∨ w.size < -330 then ofRank w.negative 0
      else if 310 < w.size then .infinite w.negative else w.rounded := by
  rw [toBinary64]
  exact if_congr (by rw [Bool.or_eq_true, decide_eq_true_eq, decide_eq_true_eq, size]) rfl rfl

private theorem rounded_mul_ten (negative : Bool) (digits : Nat) (exponent : Int) :
    (⟨negative, digits * 10, exponent⟩ : Written).rounded =
      (⟨negative, digits, exponent + 1⟩ : Written).rounded := by
  have hten : 0 < 10 := by decide
  cases exponent with
  | ofNat e =>
    have hproduct : digits * 10 * Nat.pow 10 e * unitsPerOne =
        digits * Nat.pow 10 (e + 1) * unitsPerOne := by
      rw [Nat.mul_assoc digits]
      congr 2
      exact (pow_succ' 10 e).symm
    exact congrArg (ofUnits negative · 1) hproduct
  | negSucc e =>
    have hproduct : digits * 10 * unitsPerOne = digits * unitsPerOne * 10 := by ring
    cases e with
    | zero =>
      have hwhole : digits * Nat.pow 10 0 * unitsPerOne = digits * unitsPerOne := by
        rw [show Nat.pow 10 0 = 1 from rfl, Nat.mul_one]
      change ofUnits negative (digits * 10 * unitsPerOne) (1 * 10) =
        ofUnits negative (digits * Nat.pow 10 0 * unitsPerOne) 1
      rw [hproduct, ofUnits_mul _ _ _ hten, hwhole]
    | succ e =>
      change ofUnits negative (digits * 10 * unitsPerOne) (Nat.pow 10 (e + 1) * 10) =
        ofUnits negative (digits * unitsPerOne) (Nat.pow 10 (e + 1))
      rw [hproduct, ofUnits_mul _ _ _ hten]

/-- A zero at the end of the digits is one more for the exponent. -/
theorem toBinary64_mul_ten (negative : Bool) (digits : Nat) (exponent : Int) :
    (⟨negative, digits * 10, exponent⟩ : Written).toBinary64 =
      (⟨negative, digits, exponent + 1⟩ : Written).toBinary64 := by
  rcases Nat.eq_zero_or_pos digits with rfl | hpos
  · rw [Nat.zero_mul, toBinary64_zero, toBinary64_zero]
  · have hsize : (⟨negative, digits * 10, exponent⟩ : Written).size =
        (⟨negative, digits, exponent + 1⟩ : Written).size := by
      rw [size, size, numeral_mul_ten hpos, List.length_append]
      push_cast [List.length_singleton]
      ring
    have hzero : digits * 10 = 0 ↔ digits = 0 := by omega
    simp only [toBinary64_eq, hsize, hzero, rounded_mul_ten]

/-- Zeros at the end of the digits can go into the exponent without changing the value. -/
theorem toBinary64_mul_pow (negative : Bool) (digits k : Nat) (exponent : Int) :
    (⟨negative, digits * 10 ^ k, exponent⟩ : Written).toBinary64 =
      (⟨negative, digits, exponent + k⟩ : Written).toBinary64 := by
  induction k generalizing exponent with
  | zero => simp
  | succ k ih =>
    rw [pow_succ, ← Nat.mul_assoc, toBinary64_mul_ten, ih]
    push_cast
    congr 2
    ring

/-- The sign has no part in finding the magnitude. -/
theorem toBinary64_negative {digits : Nat} {exponent : Int} {rank : Fin rankBound}
    (h : (⟨false, digits, exponent⟩ : Written).toBinary64 = .finite false rank) (negative : Bool) :
    (⟨negative, digits, exponent⟩ : Written).toBinary64 = .finite negative rank := by
  have hrank {n : Nat} (hn : ofRank false n = .finite false rank) :
      ofRank negative n = .finite negative rank := by
    rw [ofRank] at hn
    split at hn
    · next hlt =>
      obtain ⟨_, rfl⟩ := Binary64.finite.inj hn
      rw [ofRank, dif_pos hlt]
    · cases hn
  rw [toBinary64_eq] at h ⊢
  change (if digits = 0 ∨ (⟨false, digits, exponent⟩ : Written).size < -330 then ofRank negative 0
    else if 310 < (⟨false, digits, exponent⟩ : Written).size then .infinite negative
    else rounded ⟨negative, digits, exponent⟩) = _
  split at h
  · next hzero => exact (if_pos hzero).trans (hrank h)
  · next hzero =>
    rw [if_neg hzero]
    split at h
    · cases h
    · next hlarge =>
      rw [if_neg hlarge]
      cases exponent <;> exact hrank h

end Written

/-- All digits of a number read back as it. -/
theorem toBinary64_exactDigits {rank : Fin rankBound} (h : 0 < rank.val) :
    (exactDigits rank).toBinary64 = .finite false rank := by
  -- the count of digits behind the point stays a variable, so that no power of it is unfolded
  obtain ⟨n, hn⟩ : ∃ n, n + 1 = 1074 := ⟨1073, rfl⟩
  let w : Written := ⟨false, units rank * 5 ^ (n + 1), .negSucc n⟩
  have hexact : exactDigits rank = w := by
    have hexponent : (-1074 : Int) = .negSucc n := by omega
    rw [exactDigits, ← hn, hexponent]
    rfl
  have hunits := units_pos h
  have hpositive : w.digits ≠ 0 := (Nat.mul_pos hunits (Nat.pow_pos (by decide))).ne'
  have hlong : 744 < (numeral w.digits).length := by
    rw [← not_le, length_numeral_le_iff (by decide), not_lt]
    calc 10 ^ 744 ≤ 5 ^ (n + 1) := by
          rw [hn]
          decide +kernel
      _ ≤ units rank * 5 ^ (n + 1) := Nat.le_mul_of_pos_left _ hunits
  have hshort : (numeral w.digits).length ≤ n + 310 := by
    rw [length_numeral_le_iff (by omega)]
    calc units rank * 5 ^ (n + 1) < 2 ^ 1024 * unitsPerOne * 5 ^ (n + 1) :=
          Nat.mul_lt_mul_of_pos_right (units_lt rank.isLt) (Nat.pow_pos (by decide))
      _ ≤ 10 ^ (n + 310) := by
          rw [show n + 310 = n + 1 + 309 from rfl, hn]
          decide +kernel
  have hsize : w.size = (numeral w.digits).length - (n + 1 : Nat) := rfl
  have hlow : ¬ (w.digits = 0 ∨ w.size < -330) := by
    rintro (hzero | hless)
    · exact hpositive hzero
    · omega
  have hhigh : ¬ 310 < w.size := by omega
  have hscale : 5 ^ (n + 1) * unitsPerOne = 10 ^ (n + 1) := by
    rw [hn]
    decide +kernel
  have hrounded : w.rounded = ofUnits false (units rank * 10 ^ (n + 1)) (1 * 10 ^ (n + 1)) := by
    rw [Nat.one_mul, ← hscale, ← Nat.mul_assoc]
    exact congrArg (ofUnits false (units rank * 5 ^ (n + 1) * unitsPerOne)) hscale.symm
  rw [hexact, Written.toBinary64_eq, if_neg hlow, if_neg hhigh, hrounded,
    ofUnits_mul _ _ _ (Nat.pow_pos (by decide)), ofUnits_units]

private theorem toBinary64_of_gridHit {rank : Fin rankBound} {exponent : Int} {w : Written}
    (h : gridHit? rank exponent = some w) : w.negative = false ∧ w.toBinary64 = .finite false rank := by
  have hhit := List.find?_some h
  obtain ⟨digits, _, rfl⟩ := List.mem_map.1 (List.mem_of_find?_eq_some h)
  exact ⟨rfl, eq_of_beq hhit⟩

/-- The chosen digits of a number read back as it. -/
theorem toBinary64_shortest {rank : Fin rankBound} (h : 0 < rank.val) :
    (shortest rank).negative = false ∧ (shortest rank).toBinary64 = .finite false rank := by
  rw [shortest]
  cases hfound : (List.range 17).findSome?
      fun k => gridHit? rank (place (units rank) - (k + 1 : Nat)) with
  | none => exact ⟨rfl, toBinary64_exactDigits h⟩
  | some w =>
    obtain ⟨_, _, hhit⟩ := List.exists_of_findSome?_eq_some hfound
    exact toBinary64_of_gridHit hhit

end Earley.Decimal
