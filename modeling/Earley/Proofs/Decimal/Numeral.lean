import Earley.Decimal.Reading
import Mathlib.Data.List.Induction
import Mathlib.Tactic.Ring

namespace Earley.Decimal

open Earley.Text

private theorem digitValue?_digitChar : ∀ d < 10, digitValue? (digitChar d) = some d := by decide

/-- The characters for digits are decimal. -/
theorem isDecimal_digitChar {d : Nat} (hd : d < 10) : isDecimal (digitChar d) = true := by
  rw [isDecimal, digitValue?_digitChar d hd]
  rfl

theorem isDecimal_zero : isDecimal '0' = true := by decide

private theorem digitAfter_lt {zeros : List Nat} {n d : Nat} (h : digitAfter zeros n = some d) :
    d < 10 := by
  induction zeros with
  | nil => cases h
  | cons first rest ih =>
    rw [digitAfter] at h
    split at h
    · cases h
    · split at h
      · next hge hlt =>
        obtain rfl := Option.some.inj h
        omega
      · exact ih h

private theorem getD_digitValue?_lt (c : Char) : (digitValue? c).getD 0 < 10 := by
  cases h : digitValue? c with
  | none => decide
  | some d => exact digitAfter_lt h

private theorem foldl_digits (cs : List Char) (n : Nat) :
    cs.foldl (fun n c => 10 * n + (digitValue? c).getD 0) n = n * 10 ^ cs.length + ofDigits cs := by
  induction cs generalizing n with
  | nil => simp [ofDigits]
  | cons c rest ih =>
    rw [ofDigits, List.foldl_cons, List.foldl_cons, ih, ih (10 * 0 + _), List.length_cons]
    ring

private theorem ofDigits_append (cs ds : List Char) :
    ofDigits (cs ++ ds) = ofDigits cs * 10 ^ ds.length + ofDigits ds := by
  rw [ofDigits, List.foldl_append, foldl_digits ds]
  rfl

private theorem ofDigits_replicate_zero (k : Nat) : ofDigits (List.replicate k '0') = 0 := by
  induction k with
  | zero => rfl
  | succ k ih =>
    rw [List.replicate_succ', ofDigits_append, ih]
    decide

/-- Zeros behind the digits of a number multiply it by ten each. -/
theorem ofDigits_append_zeros (cs : List Char) (k : Nat) :
    ofDigits (cs ++ List.replicate k '0') = ofDigits cs * 10 ^ k := by
  rw [ofDigits_append, ofDigits_replicate_zero, List.length_replicate, Nat.add_zero]

/-- Zeros before the digits of a number do not count. -/
theorem ofDigits_zeros_append (k : Nat) (cs : List Char) :
    ofDigits (List.replicate k '0' ++ cs) = ofDigits cs := by
  rw [ofDigits_append, ofDigits_replicate_zero, Nat.zero_mul, Nat.zero_add]

theorem ofDigits_zero_cons (cs : List Char) : ofDigits ('0' :: cs) = ofDigits cs :=
  ofDigits_zeros_append 1 cs

/-- A number with so many digits is less than that power of ten. -/
theorem ofDigits_lt (cs : List Char) : ofDigits cs < 10 ^ cs.length := by
  induction cs using List.reverseRecOn with
  | nil => decide
  | append_singleton cs c ih =>
    have hc : ofDigits [c] < 10 := by simpa [ofDigits] using getD_digitValue?_lt c
    rw [ofDigits_append, List.length_append, pow_add, List.length_singleton, pow_one]
    omega

/-- Zero is written as one digit. -/
theorem numeral_zero : numeral 0 = ['0'] := by
  rw [numeral]
  rfl

/-- Every number is written with a digit at least. -/
theorem numeral_ne_nil (n : Nat) : numeral n ≠ [] := by
  rw [numeral]
  split <;> simp

/-- A number is written with digits below ten only. -/
theorem mem_numeral {n : Nat} {c : Char} (h : c ∈ numeral n) : ∃ d < 10, c = digitChar d := by
  induction n using numeral.induct with
  | case1 n hlt =>
    rw [numeral, if_pos hlt, List.mem_singleton] at h
    exact ⟨n, hlt, h⟩
  | case2 n hge ih =>
    rw [numeral, if_neg hge] at h
    rcases List.mem_append.1 h with hfront | hlast
    · exact ih hfront
    · exact ⟨n % 10, Nat.mod_lt _ (by decide), List.mem_singleton.1 hlast⟩

/-- A number is written with decimal digits only. -/
theorem isDecimal_of_mem_numeral {n : Nat} {c : Char} (h : c ∈ numeral n) : isDecimal c = true := by
  obtain ⟨d, hd, rfl⟩ := mem_numeral h
  exact isDecimal_digitChar hd

private theorem ofDigits_digitChar {d : Nat} (hd : d < 10) : ofDigits [digitChar d] = d := by
  simp [ofDigits, digitValue?_digitChar d hd]

/-- The digits that a number is written with are read as that number. -/
theorem ofDigits_numeral (n : Nat) : ofDigits (numeral n) = n := by
  induction n using numeral.induct with
  | case1 n hlt => rw [numeral, if_pos hlt, ofDigits_digitChar hlt]
  | case2 n hge ih =>
    rw [numeral, if_neg hge, ofDigits_append, ih, ofDigits_digitChar (Nat.mod_lt _ (by decide)),
      List.length_singleton]
    omega

private theorem lt_pow_length_numeral (n : Nat) : n < 10 ^ (numeral n).length := by
  have h := ofDigits_lt (numeral n)
  rwa [ofDigits_numeral] at h

private theorem pow_length_numeral_le {n : Nat} (hn : 0 < n) : 10 ^ ((numeral n).length - 1) ≤ n := by
  induction n using numeral.induct with
  | case1 n hlt =>
    rw [numeral, if_pos hlt]
    exact hn
  | case2 n hge ih =>
    have hquotient := ih (by omega)
    have hlength := List.length_pos_iff.2 (numeral_ne_nil (n / 10))
    have hpow : 10 ^ (numeral (n / 10)).length = 10 * 10 ^ ((numeral (n / 10)).length - 1) := by
      rw [← pow_succ']
      congr 1
      omega
    rw [numeral, if_neg hge, List.length_append, List.length_singleton, Nat.add_sub_cancel, hpow]
    omega

/-- A number has at most `k` digits if it is below `10 ^ k`. -/
theorem length_numeral_le_iff {n k : Nat} (hk : 0 < k) : (numeral n).length ≤ k ↔ n < 10 ^ k := by
  constructor
  · intro hle
    exact (lt_pow_length_numeral n).trans_le (Nat.pow_le_pow_right (by decide) hle)
  · intro hlt
    rcases Nat.eq_zero_or_pos n with rfl | hpos
    · rw [numeral_zero]
      exact hk
    · by_contra hmore
      have hpow : 10 ^ k ≤ 10 ^ ((numeral n).length - 1) := Nat.pow_le_pow_right (by decide) (by omega)
      exact absurd (hpow.trans (pow_length_numeral_le hpos)) (by omega)

/-- Ten times a number is written with one more zero. -/
theorem numeral_mul_ten {n : Nat} (hn : 0 < n) : numeral (n * 10) = numeral n ++ ['0'] := by
  rw [numeral, if_neg (by omega), Nat.mul_div_cancel _ (by decide), Nat.mul_mod_left]
  rfl

end Earley.Decimal
