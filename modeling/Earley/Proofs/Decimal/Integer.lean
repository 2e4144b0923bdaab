import Earley.Proofs.Decimal.Numeral
import Earley.Proofs.Text.Pieces

namespace Earley.Decimal

open Earley.Text

private theorem isBlank_of_isNumberBlank {c : Char} (h : isNumberBlank c = true) : isBlank c = true :=
  (Bool.and_eq_true_iff.1 h).1

/-- A text without blanks at its ends stays as it is. -/
theorem trimNumber_of_solid {cs : List Char} (h : Solid cs) : trimNumber cs = cs := by
  have hkeep {ds : List Char} (hds : Solid ds) : ds.dropWhile isNumberBlank = ds := by
    cases ds with
    | nil => rfl
    | cons d rest =>
      refine List.dropWhile_cons_of_neg fun hblank => ?_
      have hd := hds d List.mem_cons_self
      rw [isBlank_of_isNumberBlank hblank] at hd
      cases hd
  rw [trimNumber, hkeep h, hkeep fun c hc => h c (List.mem_reverse.1 hc), List.reverse_reverse]

/-- A text without low lines stays as it is. -/
theorem joinDigits?_of_not_mem {cs : List Char} (h : '_' ∉ cs) (last : Char) :
    joinDigits? last cs = some cs := by
  induction cs generalizing last with
  | nil => rfl
  | cons c rest ih =>
    have hc : c ≠ '_' := fun heq => h (heq ▸ List.mem_cons_self)
    have hrest : '_' ∉ rest := fun hmem => h (List.mem_cons_of_mem _ hmem)
    rw [joinDigits?]
    · rw [ih hrest, Option.map_some]
    · rintro _ _ rfl
      exact absurd rfl hc
    · rintro rfl
      exact absurd rfl hc

private theorem leadingDigits_eq_self {cs : List Char} (h : ∀ c ∈ cs, isDecimal c = true) (last : Char) :
    leadingDigits last cs = cs := by
  induction cs generalizing last with
  | nil => rfl
  | cons c rest ih =>
    obtain ⟨hc, hrest⟩ := List.forall_mem_cons.1 h
    rw [leadingDigits, if_pos hc, ih hrest]

/-- Digits without anything around them are read as they stand. -/
theorem readInt_digits (text : String) (hsolid : Solid text.toList) (hminus : '-' ∉ text.toList)
    (hplus : '+' ∉ text.toList) (hline : '_' ∉ text.toList) (hne : text ≠ "") :
    readInt text =
      if maxIntDigits < (leadingDigits ' ' text.toList).length then
        .error (.tooLong (leadingDigits ' ' text.toList).length)
      else if text.toList.all isDecimal then .ok (ofDigits text.toList)
      else .error (.malformed text) := by
  have hsign : takeSign text.toList = (false, text.toList) := by
    rw [takeSign]
    · intro rest heq
      exact hminus (heq ▸ List.mem_cons_self)
    · intro rest heq
      exact hplus (heq ▸ List.mem_cons_self)
  have hempty : text.toList.isEmpty = false := by simpa using hne
  rw [readInt, trimNumber_of_solid hsolid, hsign]
  simp only [joinDigits?_of_not_mem hline, hempty, Bool.false_or, Bool.false_eq_true, if_false]
  cases text.toList.all isDecimal <;> rfl

/-- A number is read back from its text if it is not too long. -/
theorem readInt_integerText {n : Int} (hn : 0 ≤ n) (hlength : (numeral n.natAbs).length ≤ maxIntDigits) :
    readInt (integerText n) = .ok n := by
  obtain ⟨m, rfl⟩ := Int.eq_ofNat_of_zero_le hn
  have htext : (integerText m).toList = numeral m := by
    rw [integerText, String.toList_ofList, integer, if_neg (by omega)]
    rfl
  have hdecimal : ∀ c ∈ numeral m, isDecimal c = true := fun c hc => isDecimal_of_mem_numeral hc
  have hplain : ∀ d < 10, isBlank (digitChar d) = false ∧ digitChar d ≠ '-' ∧ digitChar d ≠ '+' ∧
      digitChar d ≠ '_' := by decide
  have hnumeral : ∀ c ∈ numeral m, isBlank c = false ∧ c ≠ '-' ∧ c ≠ '+' ∧ c ≠ '_' := by
    intro c hc
    obtain ⟨d, hd, rfl⟩ := mem_numeral hc
    exact hplain d hd
  have hread := readInt_digits (integerText m)
    (by rw [htext]; exact fun c hc => (hnumeral c hc).1)
    (by rw [htext]; exact fun hc => (hnumeral _ hc).2.1 rfl)
    (by rw [htext]; exact fun hc => (hnumeral _ hc).2.2.1 rfl)
    (by rw [htext]; exact fun hc => (hnumeral _ hc).2.2.2 rfl)
    (by rw [ne_eq, ← String.toList_eq_nil_iff, htext]; exact numeral_ne_nil m)
  rw [hread, htext, leadingDigits_eq_self hdecimal, if_neg (by simpa using hlength),
    if_pos (List.all_eq_true.2 hdecimal), ofDigits_numeral]

section

variable {text : String} (hsolid : Solid text.toList) (hdigits : text.toList.all isDigit = true)
  (hne : text ≠ "")

include hsolid hdigits hne

private theorem readInt_of_all_isDigit : readInt text =
    if maxIntDigits < (leadingDigits ' ' text.toList).length then
      .error (.tooLong (leadingDigits ' ' text.toList).length)
    else if text.toList.all isDecimal then .ok (ofDigits text.toList)
    else .error (.malformed text) := by
  have hnot {c : Char} (hc : isDigit c = false) : c ∉ text.toList := by
    intro hmem
    rw [List.all_eq_true.1 hdigits c hmem] at hc
    cases hc
  exact readInt_digits text hsolid (hnot (by decide)) (hnot (by decide)) (hnot (by decide)) hne

/-- Only decimal digits can be read when there are digits alone, and not too many of them. -/
theorem readInt_eq_ok_of_isDigit {n : Int} (h : readInt text = .ok n) :
    text.toList.all isDecimal = true ∧ n = ofDigits text.toList ∧ text.toList.length ≤ maxIntDigits := by
  rw [readInt_of_all_isDigit hsolid hdigits hne] at h
  split at h
  · cases h
  · next hlength =>
    split at h
    · next hdecimal =>
      cases h
      rw [leadingDigits_eq_self (List.all_eq_true.1 hdecimal)] at hlength
      exact ⟨hdecimal, rfl, Nat.le_of_not_lt hlength⟩
    · cases h

/-- These are read. -/
theorem exists_readInt_iff : (∃ n, readInt text = .ok n) ↔
    text.toList.all isDecimal = true ∧ text.toList.length ≤ maxIntDigits := by
  constructor
  · rintro ⟨n, hn⟩
    obtain ⟨hdecimal, -, hlength⟩ := readInt_eq_ok_of_isDigit hsolid hdigits hne hn
    exact ⟨hdecimal, hlength⟩
  · rintro ⟨hdecimal, hlength⟩
    refine ⟨ofDigits text.toList, ?_⟩
    rw [readInt_of_all_isDigit hsolid hdigits hne, leadingDigits_eq_self (List.all_eq_true.1 hdecimal),
      if_neg (Nat.not_lt.2 hlength), if_pos hdecimal]

end

/-- What digits alone are read as is no negative number and not too long. -/
theorem readInt_of_isDigit {text : String} {n : Int} (hsolid : Solid text.toList)
    (hdigits : text.toList.all isDigit = true) (hne : text ≠ "") (h : readInt text = .ok n) :
    0 ≤ n ∧ (numeral n.natAbs).length ≤ maxIntDigits := by
  obtain ⟨-, rfl, hlength⟩ := readInt_eq_ok_of_isDigit hsolid hdigits hne h
  refine ⟨Int.natCast_nonneg _, (length_numeral_le_iff (by decide)).2 ?_⟩
  exact (ofDigits_lt _).trans_le (Nat.pow_le_pow_right (by decide) hlength)

/-- A minus sign in front stays there when the blanks are gone. -/
theorem exists_trimNumber_minus (cs : List Char) : ∃ rest, trimNumber ('-' :: cs) = '-' :: rest := by
  have hfront : ('-' :: cs).dropWhile isNumberBlank = '-' :: cs :=
    List.dropWhile_cons_of_neg (by decide)
  have hback : (cs.reverse ++ ['-']).dropWhile isNumberBlank =
      cs.reverse.dropWhile isNumberBlank ++ ['-'] := by
    rw [List.dropWhile_append]
    split
    · next hempty =>
      rw [List.isEmpty_iff.1 hempty]
      exact List.dropWhile_cons_of_neg (by decide)
    · rfl
  refine ⟨(cs.reverse.dropWhile isNumberBlank).reverse, ?_⟩
  rw [trimNumber, hfront, List.reverse_cons, hback, List.reverse_append]
  rfl

/-- What begins with a minus sign is no positive number. -/
theorem readInt_nonpos {text : String} {n : Int} (hminus : text.toList.head? = some '-')
    (h : readInt text = .ok n) : n ≤ 0 := by
  obtain ⟨cs, hcs⟩ := List.head?_eq_some_iff.1 hminus
  obtain ⟨rest, hrest⟩ := exists_trimNumber_minus cs
  rw [readInt, hcs, hrest] at h
  simp only [takeSign] at h
  split at h
  · cases h
  · split at h
    · split at h
      · cases h
      · obtain rfl := Except.ok.inj h
        simp
    · cases h

end Earley.Decimal
