import Earley.Json.Printer
import Earley.Json.Reader
import Earley.Proofs.Decimal.Numeral

namespace Earley.Json

open Earley.Decimal Earley.Text

/-- The UTF-16 units of a character. -/
def unitsOf (c : Char) : List Nat :=
  if c.toNat < 0x10000 then [c.toNat]
  else [0xD800 + (c.toNat - 0x10000) / 0x400, 0xDC00 + (c.toNat - 0x10000) % 0x400]

private theorem not_half (c : Char) : isHighHalf c.toNat = false ∧ isLowHalf c.toNat = false := by
  have hvalid : c.toNat < 0xD800 ∨ 0xDFFF < c.toNat ∧ c.toNat < 0x110000 := c.valid
  simp only [isHighHalf, isLowHalf, Bool.and_eq_false_iff, decide_eq_false_iff_not]
  omega

private theorem isHalf_toNat (c : Char) : isHalf c.toNat = false := by
  simp [isHalf, not_half c]

/-- A unit stays as it is, unless it is a first half and the next one the second. -/
theorem joinPairs_cons {n : Nat} {ns : List Nat}
    (h : isHighHalf n = true → ∀ m ∈ ns.head?, isLowHalf m = false) :
    joinPairs (n :: ns) = n :: joinPairs ns := by
  cases ns with
  | nil => rfl
  | cons low rest =>
    rw [joinPairs, if_neg]
    rw [Bool.and_eq_true]
    rintro ⟨hhigh, hlow⟩
    simp [h hhigh low rfl] at hlow

/-- The units of a character are joined to it, whatever units follow. -/
theorem joinPairs_unitsOf_append (c : Char) (ns : List Nat) :
    joinPairs (unitsOf c ++ ns) = c.toNat :: joinPairs ns := by
  rw [unitsOf]
  split
  · rw [List.singleton_append, joinPairs_cons fun hhigh => ?_]
    simp [not_half c] at hhigh
  · next hlarge =>
    have hvalid : c.toNat < 0xD800 ∨ 0xDFFF < c.toNat ∧ c.toNat < 0x110000 := c.valid
    have hpair : (isHighHalf (0xD800 + (c.toNat - 0x10000) / 0x400) &&
        isLowHalf (0xDC00 + (c.toNat - 0x10000) % 0x400)) = true := by
      simp only [isHighHalf, isLowHalf, Bool.and_eq_true, decide_eq_true_eq]
      omega
    have hwhole : 0x10000 + (0xD800 + (c.toNat - 0x10000) / 0x400 - 0xD800) * 0x400 +
        (0xDC00 + (c.toNat - 0x10000) % 0x400 - 0xDC00) = c.toNat := by omega
    rw [List.cons_append, List.singleton_append, joinPairs, if_pos hpair, hwhole]

/-- Units are joined to the characters that they came from. -/
theorem joinPairs_unitsOf (cs : List Char) : joinPairs (cs.flatMap unitsOf) = cs.map Char.toNat := by
  induction cs with
  | nil => rfl
  | cons c rest ih => rw [List.flatMap_cons, List.map_cons, joinPairs_unitsOf_append, ih]

/-- The units of a code point: a half of a pair is one by itself. -/
def unitsOfCode (n : Nat) : List Nat :=
  if isHalf n then [n] else unitsOf (Char.ofNat n)

private theorem toNat_ofNat {n : Nat} (hn : n < 0x110000) (hwhole : isHalf n = false) :
    (Char.ofNat n).toNat = n := by
  have hvalid : n.isValidChar := by
    simp only [isHalf, isHighHalf, isLowHalf, Bool.or_eq_false_iff, Bool.and_eq_false_iff,
      decide_eq_false_iff_not] at hwhole
    rw [Nat.isValidChar]
    omega
  rw [Char.ofNat, dif_pos hvalid]
  rfl

/-- No code point begins with a second half, unless it is one. -/
theorem head?_unitsOfCode {n m : Nat} (hm : m ∈ (unitsOfCode n).head?) (hlow : isLowHalf m = true) :
    m = n := by
  rw [unitsOfCode] at hm
  split at hm
  · exact (Option.some.inj hm).symm
  · rw [unitsOf] at hm
    split at hm
    · obtain rfl := Option.some.inj hm
      simp [not_half] at hlow
    · have hvalid : (Char.ofNat n).toNat < 0xD800 ∨
        0xDFFF < (Char.ofNat n).toNat ∧ (Char.ofNat n).toNat < 0x110000 := (Char.ofNat n).valid
      obtain rfl := Option.some.inj hm
      simp only [isLowHalf, Bool.and_eq_true, decide_eq_true_eq] at hlow
      omega

/-- The units of a text that has halves of pairs in it are joined to its code points. -/
theorem joinPairs_unitsOfCode {codes : List Nat} (hrange : ∀ n ∈ codes, n < 0x110000)
    (hunpaired : isUnpaired codes = true) : joinPairs (codes.flatMap unitsOfCode) = codes := by
  induction codes with
  | nil => rfl
  | cons n rest ih =>
    obtain ⟨hn, hrest⟩ := List.forall_mem_cons.1 hrange
    have hlater : isUnpaired rest = true := by
      cases rest with
      | nil => rfl
      | cons next more =>
        rw [isUnpaired, Bool.and_eq_true] at hunpaired
        exact hunpaired.2
    rw [List.flatMap_cons]
    by_cases hhalf : isHalf n = true
    · have hunits : unitsOfCode n = [n] := if_pos hhalf
      rw [hunits, List.singleton_append, joinPairs_cons, ih hrest hlater]
      intro hhigh m hm
      cases rest with
      | nil => cases hm
      | cons next more =>
        have hne : unitsOfCode next ≠ [] := by
          rw [unitsOfCode, unitsOf]
          split <;> [skip; split] <;> exact List.cons_ne_nil _ _
        rw [List.flatMap_cons, List.head?_append, List.head?_eq_some_head hne, Option.some_or,
          ← List.head?_eq_some_head hne] at hm
        by_contra hlow
        rw [Bool.not_eq_false] at hlow
        obtain rfl := head?_unitsOfCode hm hlow
        simp [isUnpaired, hhigh, hlow] at hunpaired
    · rw [Bool.not_eq_true] at hhalf
      have hunits : unitsOfCode n = unitsOf (Char.ofNat n) := if_neg (by simp [hhalf])
      rw [hunits, joinPairs_unitsOf_append, ih hrest hlater, toNat_ofNat hn hhalf]

/-- The units of what was read, put in front. -/
def prepend (units : List Nat) (found : Except Fault (List Nat × List Char)) :
    Except Fault (List Nat × List Char) :=
  found.map fun (ns, more) => (units ++ ns, more)

private theorem prepend_append (us vs : List Nat) (found : Except Fault (List Nat × List Char)) :
    prepend us (prepend vs found) = prepend (us ++ vs) found := by
  cases found with
  | error fault => rfl
  | ok pair => simp [prepend, Except.map]

private theorem hexValue?_digitChar : ∀ d < 16, hexValue? (digitChar d) = some d := by decide

private theorem unit?_hex {n : Nat} (hn : n < 0x10000) :
    unit? (digitChar (n / 16 / 16 / 16 % 16)) (digitChar (n / 16 / 16 % 16)) (digitChar (n / 16 % 16))
      (digitChar (n % 16)) = some n := by
  have hdigit (m : Nat) : hexValue? (digitChar (m % 16)) = some (m % 16) :=
    hexValue?_digitChar _ (Nat.mod_lt m (by decide))
  rw [unit?, hdigit, hdigit, hdigit, hdigit]
  refine congrArg some ?_
  omega

private theorem readUnits_unitEscape {n : Nat} (hn : n < 0x10000) (whole : Nat) {rest : List Char}
    (hrest : rest ≠ []) :
    readUnits whole (unitEscape n ++ rest) = prepend [n] (readUnits whole rest) := by
  have htext : unitEscape n ++ rest = '\\' :: 'u' :: digitChar (n / 16 / 16 / 16 % 16) ::
      digitChar (n / 16 / 16 % 16) :: digitChar (n / 16 % 16) :: digitChar (n % 16) :: rest := rfl
  have hempty : rest.isEmpty = false := by simpa using hrest
  rw [htext, readUnits, hempty, unit?_hex hn]
  rfl

private theorem readUnits_plain {c : Char} (hquote : c ≠ '"') (hslash : c ≠ '\\') (hc : ¬c.toNat < 0x20)
    (whole : Nat) (rest : List Char) :
    readUnits whole (c :: rest) = prepend [c.toNat] (readUnits whole rest) := by
  rw [readUnits]
  · rw [if_neg hc]
    rfl
  · rintro rfl
    exact absurd rfl hquote
  all_goals grind

/-- The characters whose escapes have one letter. -/
def lettered : List Char := ['"', '\\', '\n', '\r', '\t', '\x08', '\x0c']

/-- A character without a letter of its own for an escape is escaped by number, or not at all. -/
theorem escape_of_not_lettered {c : Char} (h : c ∉ lettered) :
    escape true c = if c.toNat < 0x20 || 0x7E < c.toNat then unicodeEscape c else [c] := by
  simp only [lettered, List.mem_cons, List.not_mem_nil, or_false, not_or] at h
  simp [escape, h]

private theorem readUnits_lettered {c : Char} (h : c ∈ lettered) (whole : Nat) (rest : List Char) :
    readUnits whole (escape true c ++ rest) = prepend (unitsOf c) (readUnits whole rest) := by
  simp only [lettered, List.mem_cons, List.not_mem_nil, or_false] at h
  rcases h with rfl | rfl | rfl | rfl | rfl | rfl | rfl <;> rfl

/-- The escape of a character is read as the character's units. -/
theorem readUnits_escape (c : Char) (whole : Nat) {rest : List Char} (hrest : rest ≠ []) :
    readUnits whole (escape true c ++ rest) = prepend (unitsOf c) (readUnits whole rest) := by
  by_cases hlettered : c ∈ lettered
  · exact readUnits_lettered hlettered whole rest
  · rw [escape_of_not_lettered hlettered]
    split
    · rw [unicodeEscape, unitsOf]
      split
      · next hsmall => exact readUnits_unitEscape hsmall whole hrest
      · have hvalid : c.toNat < 0xD800 ∨ 0xDFFF < c.toNat ∧ c.toNat < 0x110000 := c.valid
        rw [List.append_assoc, readUnits_unitEscape (by omega) whole (by simp [unitEscape]),
          readUnits_unitEscape (by omega) whole hrest, prepend_append]
        rfl
    · next hprintable =>
      have hbounds : ¬c.toNat < 0x20 ∧ ¬0x7E < c.toNat := by simpa using hprintable
      have hquote : c ≠ '"' := fun heq => hlettered (heq ▸ by decide)
      have hslash : c ≠ '\\' := fun heq => hlettered (heq ▸ by decide)
      rw [List.singleton_append, readUnits_plain hquote hslash hbounds.1, unitsOf, if_pos (by omega)]

/-- The escape of a code point is read as the units of the code point. -/
theorem readUnits_escapeCode (n whole : Nat) {rest : List Char} (hrest : rest ≠ []) :
    readUnits whole (escapeCode true n ++ rest) = prepend (unitsOfCode n) (readUnits whole rest) := by
  rw [escapeCode, unitsOfCode]
  split
  · next hhalf =>
    refine readUnits_unitEscape ?_ whole hrest
    simp only [isHalf, isHighHalf, isLowHalf, Bool.or_eq_true, Bool.and_eq_true, decide_eq_true_eq] at hhalf
    omega
  · exact readUnits_escape _ whole hrest

/-- A row of escapes is read as a row of units, up to the closing mark. -/
theorem readUnits_flatMap {α : Type} {shown : α → List Char} {units : α → List Nat} (whole : Nat)
    (h : ∀ a rest, rest ≠ [] → readUnits whole (shown a ++ rest) = prepend (units a) (readUnits whole rest))
    (as : List α) (rest : List Char) :
    readUnits whole (as.flatMap shown ++ '"' :: rest) = .ok (as.flatMap units, rest) := by
  induction as with
  | nil => rfl
  | cons a more ih =>
    rw [List.flatMap_cons, List.append_assoc, h a _ (by simp), ih]
    rfl

/-- What stands behind the opening mark of a text up to its end. -/
def quotedChars : AnyText → List Char
  | .whole s => s.toList.flatMap (escape true) ++ ['"']
  | .halved h => h.codes.flatMap (escapeCode true) ++ ['"']

/-- A text in quotes is what stands behind the first quote, the last one included. -/
theorem quoteText_eq (t : AnyText) : quoteText true t = '"' :: quotedChars t := by
  cases t <;> rfl

/-- What makes a text halved: a half is among its code points, these are all in range, and no two halves are
a pair. -/
theorem Halved.spec (h : Halved) :
    (∃ n ∈ h.codes, isHalf n = true) ∧ (∀ n ∈ h.codes, n < 0x110000) ∧ isUnpaired h.codes = true := by
  have hall := h.isHalved
  rw [isHalved, Bool.and_eq_true, Bool.and_eq_true, List.any_eq_true, List.all_eq_true] at hall
  exact ⟨hall.1.1, fun n hn => of_decide_eq_true (hall.1.2 n hn), hall.2⟩

/-- A text between quotation marks is read as its code points. -/
theorem readString_quotedChars (t : AnyText) (whole : Nat) (rest : List Char) :
    readString whole (quotedChars t ++ rest) = .ok (t.codes, rest) := by
  cases t with
  | whole s =>
    rw [quotedChars, List.append_assoc, List.singleton_append, readString,
      readUnits_flatMap whole fun c _ => readUnits_escape c whole]
    exact congrArg (fun codes => Except.ok (codes, rest)) (joinPairs_unitsOf s.toList)
  | halved h =>
    obtain ⟨-, hrange, hunpaired⟩ := Halved.spec h
    rw [quotedChars, List.append_assoc, List.singleton_append, readString,
      readUnits_flatMap whole fun n _ => readUnits_escapeCode n whole]
    exact congrArg (fun codes => Except.ok (codes, rest)) (joinPairs_unitsOfCode hrange hunpaired)

/-- A text is known by its code points. -/
theorem ofCodes_codes (t : AnyText) : AnyText.ofCodes t.codes = t := by
  cases t with
  | whole s =>
    have hwhole : isHalved (s.toList.map Char.toNat) = false := by
      simp [isHalved, isHalf_toNat]
    have hstand (c : Char) : standIn c.toNat = c := by simp [standIn, isHalf_toNat]
    rw [AnyText.codes, AnyText.ofCodes, dif_neg (by simp [hwhole]), List.map_map]
    simp [Function.comp_def, hstand]
  | halved h => exact dif_pos h.isHalved

end Earley.Json
