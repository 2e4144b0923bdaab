import Earley.Proofs.Decimal.Form
import Earley.Proofs.Decimal.Value
import Earley.Weight

namespace Earley

open Earley.Text Earley.Decimal

namespace Decimal

/-- A sign in front of a number: only a minus is written. -/
def signChars (negative : Bool) : List Char := if negative then ['-'] else []

/-- What is written for a number has the form of one. -/
theorem readWritten?_signChars (negative : Bool) {whole : List Char} {fraction? : Option (List Char)}
    {exponent? : Option Exponent} (hwhole : ∀ c ∈ whole, isDecimal c = true) (hne : whole ≠ [])
    (hfraction : ∀ c ∈ fraction?.getD [], isDecimal c = true) (hexponent : ∀ e ∈ exponent?, e.Proper) :
    readWritten? (signChars negative ++ (whole ++ (pointed fraction? ++ exponent?.elim [] Exponent.text))) =
      some ⟨negative, ofDigits (whole ++ fraction?.getD []),
        exponent?.elim 0 Exponent.value - (fraction?.getD []).length⟩ := by
  let f : Form := ⟨if negative then some '-' else none, whole, fraction?, exponent?⟩
  have hform : f.Proper := {
    sign := by cases negative <;> simp [f, IsSign]
    digits_ne := by simp [f, Form.digits, hne]
    digits := List.forall_mem_append.2 ⟨hwhole, hfraction⟩
    exponent := hexponent }
  have hread := hform.readWritten?_text
  cases negative <;> exact hread

/-- A sign and digits behind the mark of an exponent. -/
def exponentOf (exponent : Int) (zeros : Nat) : Exponent where
  mark := 'e'
  sign? := some (if exponent < 0 then '-' else '+')
  digits := List.replicate zeros '0' ++ numeral exponent.natAbs

private theorem exponentOf_proper (exponent : Int) (zeros : Nat) : (exponentOf exponent zeros).Proper where
  mark := .inl rfl
  sign := by
    rintro _ ⟨⟩
    split
    · exact .inl rfl
    · exact .inr rfl
  digits_ne := by simp [exponentOf, numeral_ne_nil]
  digits := by
    intro c hc
    rcases List.mem_append.1 hc with hzero | hnumeral
    · exact List.eq_of_mem_replicate hzero ▸ isDecimal_zero
    · exact isDecimal_of_mem_numeral hnumeral

private theorem value_exponentOf (exponent : Int) (zeros : Nat) :
    (exponentOf exponent zeros).value = exponent := by
  rw [Exponent.value, exponentOf, ofDigits_zeros_append, ofDigits_numeral]
  by_cases hneg : exponent < 0
  · rw [if_pos (by rw [if_pos hneg])]
    omega
  · rw [if_neg (by rw [if_neg hneg]; simp)]
    omega

end Decimal

namespace Weight

variable {digits : List Char}

/-- What a text of a number is worth: its digits up to a power of ten. -/
def Reads (cs : List Char) (w : Decimal.Written) : Prop :=
  ∃ found, readWritten? cs = some found ∧ found.toBinary64 = w.toBinary64

/-- In the layout with an exponent a point stands behind the first digit if others follow. -/
private theorem exists_scientific_tail (place : Int) :
    ∃ e : Exponent, e.Proper ∧ e.value = place - 1 ∧
      ∀ first fraction, scientific layout (first :: fraction) place =
        [first] ++ (pointed (if fraction = [] then none else some fraction) ++ e.text) := by
  refine ⟨_, exponentOf_proper (place - 1) (layout.exponentDigits - (numeral (place - 1).natAbs).length),
    value_exponentOf _ _, fun first fraction => ?_⟩
  cases fraction <;> simp [scientific, pointed, exponentOf, Exponent.text]

private theorem reads_scientific (negative : Bool) (hdigits : ∀ c ∈ digits, isDecimal c = true)
    (hne : digits ≠ []) (place : Int) :
    Reads (signChars negative ++ scientific layout digits place)
      ⟨negative, ofDigits digits, place - digits.length⟩ := by
  obtain ⟨e, he, hvalue, hlayout⟩ := exists_scientific_tail place
  obtain ⟨first, fraction, rfl⟩ := List.exists_cons_of_ne_nil hne
  have hfirst : ∀ c ∈ [first], isDecimal c = true := by
    simpa using hdigits first List.mem_cons_self
  have hsame : (if fraction = [] then none else some fraction).getD [] = fraction := by
    by_cases hshort : fraction = [] <;> simp [hshort]
  have hfraction : ∀ c ∈ (if fraction = [] then none else some fraction).getD [], isDecimal c = true := by
    rw [hsame]
    exact fun c hc => hdigits c (List.mem_cons_of_mem _ hc)
  have hplace : place - ((first :: fraction).length : Int) = place - 1 - fraction.length := by
    rw [List.length_cons]
    omega
  have hread := @readWritten?_signChars negative _ _ (some e) hfirst (by simp) hfraction (by simpa using he)
  rw [hsame, Option.elim_some, Option.elim_some, hvalue] at hread
  rw [hplace, hlayout]
  exact ⟨_, hread, rfl⟩

private theorem positional_of_nonpos {place : Int} (h : place ≤ 0) :
    positional digits place = ['0'] ++ '.' :: (List.replicate (-place).toNat '0' ++ digits) := by
  rw [positional, if_pos h]
  rfl

private theorem positional_of_lt {n : Nat} (hn : 0 < n) (h : n < digits.length) :
    positional digits n = digits.take n ++ '.' :: digits.drop n := by
  have hdrop : (digits.drop n).isEmpty = false := by simpa using h
  rw [positional, if_neg (by omega)]
  simp [hdrop, Nat.sub_eq_zero_of_le h.le]

private theorem positional_of_le {n : Nat} (hn : 0 < n) (h : digits.length ≤ n) :
    positional digits n = digits ++ List.replicate (n - digits.length) '0' ++ '.' :: ['0'] := by
  rw [positional, if_neg (by omega)]
  simp [List.take_of_length_le h, List.drop_of_length_le h]

private theorem reads_positional (negative : Bool) (hdigits : ∀ c ∈ digits, isDecimal c = true)
    (hne : digits ≠ []) (place : Int) :
    Reads (signChars negative ++ positional digits place)
      ⟨negative, ofDigits digits, place - digits.length⟩ := by
  have hzeros {k : Nat} : ∀ c ∈ List.replicate k '0', isDecimal c = true :=
    fun c hc => List.eq_of_mem_replicate hc ▸ isDecimal_zero
  have hzero : ∀ c ∈ ['0'], isDecimal c = true := List.forall_mem_singleton.2 isDecimal_zero
  have hread {whole fraction : List Char} (hwhole : ∀ c ∈ whole, isDecimal c = true)
      (hwhole' : whole ≠ []) (hfraction : ∀ c ∈ fraction, isDecimal c = true) :
      readWritten? (signChars negative ++ (whole ++ '.' :: fraction)) =
        some ⟨negative, ofDigits (whole ++ fraction), -(fraction.length : Int)⟩ := by
    have h := @readWritten?_signChars negative whole (some fraction) none hwhole hwhole' hfraction (by simp)
    simpa [pointed] using h
  rcases le_or_gt place 0 with hsmall | hlarge
  · rw [positional_of_nonpos hsmall]
    refine ⟨_, hread hzero (by decide) (List.forall_mem_append.2 ⟨hzeros, hdigits⟩), ?_⟩
    rw [List.singleton_append, ofDigits_zero_cons, ofDigits_zeros_append, List.length_append,
      List.length_replicate]
    congr 2
    omega
  · obtain ⟨n, rfl⟩ := Int.eq_ofNat_of_zero_le hlarge.le
    have hn : 0 < n := by omega
    rcases Nat.lt_or_ge n digits.length with hlong | hshort
    · have htake : digits.take n ≠ [] := by
        simp only [ne_eq, List.take_eq_nil_iff, hne, or_false]
        omega
      rw [positional_of_lt hn hlong]
      refine ⟨_, hread (fun c hc => hdigits c (List.mem_of_mem_take hc)) htake
        (fun c hc => hdigits c (List.mem_of_mem_drop hc)), ?_⟩
      rw [List.take_append_drop, List.length_drop]
      congr 2
      omega
    · rw [positional_of_le hn hshort]
      refine ⟨_, hread (List.forall_mem_append.2 ⟨hdigits, hzeros⟩) (by simp [hne]) hzero, ?_⟩
      have hone : ['0'] = List.replicate 1 '0' := rfl
      rw [List.append_assoc, hone, List.replicate_append_replicate, ofDigits_append_zeros,
        Written.toBinary64_mul_pow, List.length_replicate]
      congr 2
      omega

private theorem eq_append_zeros (cs : List Char) :
    ∃ k, cs = (cs.reverse.dropWhile (· == '0')).reverse ++ List.replicate k '0' := by
  have hzeros : cs.reverse.takeWhile (· == '0') =
      List.replicate (cs.reverse.takeWhile (· == '0')).length '0' := by
    refine List.eq_replicate_iff.2 ⟨rfl, fun c hc => ?_⟩
    exact eq_of_beq (List.all_eq_true.1 List.all_takeWhile c hc)
  refine ⟨(cs.reverse.takeWhile (· == '0')).length, ?_⟩
  rw [← List.reverse_replicate, ← hzeros, ← List.reverse_append, List.takeWhile_append_dropWhile,
    List.reverse_reverse]

/-- The digits that are shown, and the place of their point, are worth what the number is. -/
theorem digitsAndPlace_spec (negative : Bool) (w : Decimal.Written) :
    (∀ c ∈ (digitsAndPlace w).1, ∃ d < 10, c = digitChar d) ∧ (digitsAndPlace w).1 ≠ [] ∧
      (⟨negative, ofDigits (digitsAndPlace w).1,
        (digitsAndPlace w).2 - (digitsAndPlace w).1.length⟩ : Decimal.Written).toBinary64 =
      (⟨negative, w.digits, w.exponent⟩ : Decimal.Written).toBinary64 := by
  rcases Nat.eq_zero_or_pos w.digits with hzero | hpos
  · have hshown : digitsAndPlace w = (['0'], 1) := by
      rw [digitsAndPlace, if_pos hzero, hzero, numeral_zero]
      rfl
    rw [hshown, hzero, Written.toBinary64_zero]
    exact ⟨by simpa using ⟨0, by decide, rfl⟩, by decide, Written.toBinary64_zero _ _⟩
  · obtain ⟨kept, hkept⟩ : ∃ kept, kept = ((numeral w.digits).reverse.dropWhile (· == '0')).reverse :=
      ⟨_, rfl⟩
    obtain ⟨k, hall⟩ := eq_append_zeros (numeral w.digits)
    rw [← hkept] at hall
    have hvalue : ofDigits kept * 10 ^ k = w.digits := by
      rw [← ofDigits_append_zeros, ← hall, ofDigits_numeral]
    have hne : kept ≠ [] := by
      rintro rfl
      rw [show ofDigits [] = 0 from rfl, Nat.zero_mul] at hvalue
      omega
    have hshown : digitsAndPlace w = (kept, (numeral w.digits).length + w.exponent) := by
      rw [digitsAndPlace, if_neg hpos.ne', ← hkept, if_neg (by simpa using hne)]
    have hplace : ((numeral w.digits).length : Int) + w.exponent - kept.length = w.exponent + k := by
      rw [hall, List.length_append, List.length_replicate]
      omega
    rw [hshown, hplace, ← Written.toBinary64_mul_pow, hvalue]
    refine ⟨fun c hc => mem_numeral (n := w.digits) ?_, hne, rfl⟩
    rw [hall]
    exact List.mem_append_left _ hc

/-- A finite weight is read back from its text. -/
theorem exists_readWritten? (negative : Bool) (rank : Fin Binary64.rankBound) :
    ∃ w, readWritten? (toChars (.finite negative rank)) = some w ∧
      w.toBinary64 = .finite negative rank := by
  obtain ⟨shown, hshown⟩ : ∃ shown, shown =
      if rank.val = 0 then (⟨false, 0, 0⟩ : Decimal.Written) else Decimal.shortest rank := ⟨_, rfl⟩
  have hvalue : (⟨negative, shown.digits, shown.exponent⟩ : Decimal.Written).toBinary64 =
      .finite negative rank := by
    split at hshown
    · next hzero =>
      rw [hshown, Written.toBinary64_zero, Binary64.ofRank, dif_pos (hzero ▸ rank.isLt)]
      exact congrArg (Binary64.finite negative) (Fin.ext hzero.symm)
    · next hrank =>
      obtain ⟨hsign, hback⟩ := toBinary64_shortest (Nat.pos_of_ne_zero hrank)
      rw [← hshown] at hsign hback
      obtain ⟨_, digits, exponent⟩ := shown
      obtain rfl : _ = false := hsign
      exact Written.toBinary64_negative hback negative
  obtain ⟨hshow, hne, hworth⟩ := digitsAndPlace_spec negative shown
  have hdigits : ∀ c ∈ (digitsAndPlace shown).1, isDecimal c = true := by
    intro c hc
    obtain ⟨d, hd, rfl⟩ := hshow c hc
    exact isDecimal_digitChar hd
  have htext : Reads (toChars (.finite negative rank))
      ⟨negative, ofDigits (digitsAndPlace shown).1,
        (digitsAndPlace shown).2 - (digitsAndPlace shown).1.length⟩ := by
    rw [toChars, showMagnitude, ← hshown]
    dsimp only
    by_cases hlayout : (decide (layout.positional.1 ≤ (digitsAndPlace shown).2) &&
        decide ((digitsAndPlace shown).2 ≤ layout.positional.2)) = true
    · rw [if_pos hlayout]
      exact reads_positional negative hdigits hne _
    · rw [if_neg hlayout]
      exact reads_scientific negative hdigits hne _
  obtain ⟨found, hread, hfound⟩ := htext
  exact ⟨found, hread, by rw [hfound, hworth, hvalue]⟩

/-- The characters that weights are written with. -/
def letters : List Char := "0123456789.-+einfa".toList

private theorem digitChar_mem_letters : ∀ d < 10, digitChar d ∈ letters := by decide

private theorem replicate_subset_letters (k : Nat) : List.replicate k '0' ⊆ letters :=
  fun _ hc => List.eq_of_mem_replicate hc ▸ by decide

private theorem numeral_subset_letters (n : Nat) : numeral n ⊆ letters := by
  intro c hc
  obtain ⟨d, hd, rfl⟩ := mem_numeral hc
  exact digitChar_mem_letters d hd

private theorem positional_subset_letters (hdigits : digits ⊆ letters) (place : Int) :
    positional digits place ⊆ letters := by
  have hzeros := replicate_subset_letters
  have htake (n : Nat) : digits.take n ⊆ letters := List.Subset.trans (List.take_subset _ _) hdigits
  have hdrop (n : Nat) : digits.drop n ⊆ letters := List.Subset.trans (List.drop_subset _ _) hdigits
  have hmark : '0' ∈ letters ∧ '.' ∈ letters := by decide
  rw [positional]
  split
  · simp [hmark, hzeros, hdigits]
  · dsimp only
    split <;> simp [hmark, hzeros, htake, hdrop]

private theorem scientific_subset_letters (hdigits : digits ⊆ letters) (place : Int) :
    scientific layout digits place ⊆ letters := by
  have hzeros := replicate_subset_letters
  have hnumeral := numeral_subset_letters
  have htake (n : Nat) : digits.take n ⊆ letters := List.Subset.trans (List.take_subset _ _) hdigits
  have htail : digits.tail ⊆ letters := List.Subset.trans (List.tail_sublist digits).subset hdigits
  have hmark : 'e' ∈ letters ∧ '.' ∈ letters ∧ '-' ∈ letters ∧ '+' ∈ letters := by decide
  rw [scientific]
  split <;> split <;> simp [hmark, hzeros, hnumeral, htake, htail]

/-- A weight is written with digits, signs, points and a few letters only. -/
theorem toChars_subset_letters (w : Weight) : toChars w ⊆ letters := by
  cases w with
  | nan => decide
  | infinite negative => cases negative <;> decide
  | finite negative rank =>
    have hsign : (if negative then ['-'] else []) ⊆ letters := by cases negative <;> decide
    have hdigits (w : Decimal.Written) : (digitsAndPlace w).1 ⊆ letters := by
      intro c hc
      obtain ⟨d, hd, rfl⟩ := (digitsAndPlace_spec false w).1 c hc
      exact digitChar_mem_letters d hd
    obtain ⟨shown, hshown⟩ : ∃ shown, shown =
        if rank.val = 0 then (⟨false, 0, 0⟩ : Decimal.Written) else Decimal.shortest rank := ⟨_, rfl⟩
    rw [toChars, showMagnitude, ← hshown]
    dsimp only
    refine List.append_subset.2 ⟨hsign, ?_⟩
    split
    · exact positional_subset_letters (hdigits _) _
    · exact scientific_subset_letters (hdigits _) _

/-- A weight is written without blanks and brackets. -/
theorem plain_of_mem_toChars {w : Weight} {c : Char} (h : c ∈ toChars w) :
    isBlank c = false ∧ c ≠ '[' ∧ c ≠ '|' := by
  have hletters : (letters.all fun c => !isBlank c && c != '[' && c != '|') = true := by decide
  have hplain := List.all_eq_true.1 hletters c (toChars_subset_letters w h)
  simpa [and_assoc] using hplain

/-- The names of weights that are not finite are no numbers. -/
theorem readWritten?_eq_none {w : Weight} (h : w.isFinite = false) : readWritten? (toChars w) = none := by
  cases w with
  | nan => decide
  | infinite negative => cases negative <;> decide
  | finite negative rank => cases h

end Weight

end Earley
