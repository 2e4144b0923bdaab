import Earley.Instant.Reading
import Mathlib.Algebra.GroupWithZero.Nat
import Mathlib.Data.Nat.Init
import Mathlib.Tactic.SplitIfs

namespace Earley

namespace Decimal

private theorem digitChar_lt_iff : ∀ d < 10, ∀ e < 10, digitChar d < digitChar e ↔ d < e := by decide

private theorem digitChar_inj : ∀ d < 10, ∀ e < 10, digitChar d = digitChar e ↔ d = e := by decide

/-- Texts that begin with digits of one width compare by the numbers, and where these are the same by what
follows. -/
theorem fixed_append_lt_iff {width m n : Nat} (hm : m < 10 ^ width) (hn : n < 10 ^ width)
    (cs ds : List Char) : fixed width m ++ cs < fixed width n ++ ds ↔ m < n ∨ m = n ∧ cs < ds := by
  induction width generalizing m n cs ds with
  | zero =>
    obtain rfl : m = 0 := by omega
    obtain rfl : n = 0 := by omega
    simp [fixed]
  | succ width ih =>
    rw [Nat.pow_succ] at hm hn
    have hdigit := digitChar_lt_iff (m % 10) (by omega) (n % 10) (by omega)
    have hsame := digitChar_inj (m % 10) (by omega) (n % 10) (by omega)
    rw [fixed, fixed, List.append_assoc, List.append_assoc, ih (by omega) (by omega), List.singleton_append,
      List.singleton_append, List.cons_lt_cons_iff, hdigit, hsame]
    constructor
    · rintro (hlt | ⟨heq, hlt | ⟨heq', hrest⟩⟩)
      · exact .inl (by omega)
      · exact .inl (by omega)
      · exact .inr ⟨by omega, hrest⟩
    · rintro (hlt | ⟨rfl, hrest⟩)
      · rcases Nat.lt_or_ge (m / 10) (n / 10) with hfront | hfront
        · exact .inl hfront
        · exact .inr ⟨by omega, .inl (by omega)⟩
      · exact .inr ⟨rfl, .inr ⟨rfl, hrest⟩⟩

end Decimal

namespace Instant

/-- A time of the years 1 to 9999 as a clock shows it that goes by universal time. -/
structure Utc (t : Instant) : Prop where
  valid : t.isValid = true
  microsecond_lt : t.microsecond < 1000000
  offset_eq : t.offset = some 0

instance : DecidablePred Utc := fun t =>
  decidable_of_iff (t.isValid = true ∧ t.microsecond < 1000000 ∧ t.offset = some 0)
    ⟨fun ⟨hvalid, hmicrosecond, hoffset⟩ => ⟨hvalid, hmicrosecond, hoffset⟩,
      fun h => ⟨h.valid, h.microsecond_lt, h.offset_eq⟩⟩

/-- The days of a year before a month. -/
def daysToMonth (year : Nat) : Nat → Nat
  | 0 | 1 => 0
  | month + 2 => daysToMonth year (month + 1) + daysInMonth year (month + 1)

/-- The days from the first of March of the year 0 to the date of a time. -/
def days (t : Instant) : Nat := daysToYear t.year + daysToMonth t.year t.month + (t.day - 1)

/-- The millionths of a second from the first of March of the year 0 to a time in universal time. -/
def elapsed (t : Instant) : Nat :=
  (((t.days * 24 + t.hour) * 60 + t.minute) * 60 + t.second) * 1000000 + t.microsecond

/-- The numbers that a time is written with, from the year down. -/
def fields (t : Instant) : List Nat :=
  [t.year, t.month, t.day, t.hour, t.minute, t.second, t.microsecond]

variable {t u : Instant}

private theorem daysInMonth_le (year month : Nat) : daysInMonth year month ≤ 31 := by
  rw [daysInMonth]
  split_ifs <;> decide

/-- A month ends before a later one begins. -/
theorem daysToMonth_add_le (year : Nat) {month later : Nat} (h : month < later) (hmonth : 1 ≤ month) :
    daysToMonth year month + daysInMonth year month ≤ daysToMonth year later := by
  obtain ⟨m, rfl⟩ : ∃ m, month = m + 1 := ⟨month - 1, by omega⟩
  induction later, h using Nat.le_induction with
  | base => exact Nat.le_refl _
  | succ later hle ih =>
    obtain ⟨k, rfl⟩ : ∃ k, later = k + 1 := ⟨later - 1, by omega⟩
    rw [daysToMonth]
    omega

private theorem daysToMonth_thirteen (year : Nat) :
    daysToMonth year 13 = if isLeap year then 366 else 365 := by
  cases hleap : isLeap year <;> simp [daysToMonth, daysInMonth, hleap]

private theorem daysToYear_succ {year : Nat} (h : 1 ≤ year) :
    daysToYear (year + 1) = daysToYear year + daysToMonth year 13 := by
  obtain ⟨past, rfl⟩ : ∃ past, year = past + 1 := ⟨year - 1, by omega⟩
  have hfour : 100 ∣ past + 1 → 4 ∣ past + 1 := Nat.dvd_trans (by decide)
  have hcentury : 400 ∣ past + 1 → 100 ∣ past + 1 := Nat.dvd_trans (by decide)
  have hle : past / 100 ≤ 306 + 365 * past + past / 4 := by omega
  have hleap : isLeap (past + 1) = true ↔ 4 ∣ past + 1 ∧ (¬100 ∣ past + 1 ∨ 400 ∣ past + 1) := by
    simp [isLeap, Nat.dvd_iff_mod_eq_zero]
  simp only [daysToMonth_thirteen, daysToYear, Nat.add_sub_cancel, Nat.succ_div, hleap]
  generalize past / 4 = fours, past / 100 = centuries, past / 400 = eras at hle
  split_ifs <;> omega

/-- A year ends before a later one begins. -/
theorem daysToYear_add_le {year later : Nat} (h : year < later) (hyear : 1 ≤ year) :
    daysToYear year + daysToMonth year 13 ≤ daysToYear later := by
  induction later, h using Nat.le_induction with
  | base => exact Nat.le_of_eq (daysToYear_succ hyear).symm
  | succ later hle ih =>
    rw [daysToYear_succ (by omega)]
    omega

/-- A fraction, which is left out if there is none, and the sign behind it are in the order of the
millionths. -/
theorem fractionChars_lt_iff {m n : Nat} (hm : m < 1000000) (hn : n < 1000000) (cs : List Char) :
    fractionChars m ++ '+' :: cs < fractionChars n ++ '+' :: cs ↔ m < n := by
  have hmark : '+' < '.' := by decide
  rw [fractionChars, fractionChars]
  split_ifs with hzero hzero' hzero'
  · simp [hzero, hzero']
  · rw [List.nil_append, List.cons_append, List.cons_lt_cons_iff]
    exact iff_of_true (.inl hmark) (by omega)
  · rw [List.nil_append, List.cons_append]
    exact iff_of_false (List.lt_asymm (List.cons_lt_cons_iff.2 (.inl hmark))) (by omega)
  · rw [List.cons_append, List.cons_append, List.cons_lt_cons_self, Decimal.fixed_append_lt_iff hm hn,
      or_iff_left fun hsame => List.lt_irrefl _ hsame.2]

namespace Utc

/-- The fields of a time in UTC are in their ranges. -/
theorem bounds (h : t.Utc) : 1 ≤ t.year ∧ t.year ≤ 9999 ∧ 1 ≤ t.month ∧ t.month ≤ 12 ∧ 1 ≤ t.day ∧
    t.day ≤ daysInMonth t.year t.month ∧ t.hour < 24 ∧ t.minute < 60 ∧ t.second < 60 := by
  simpa [isValid, and_assoc] using h.valid

private theorem days_lt (ht : t.Utc) (hu : u.Utc) (h : t.year < u.year ∨
    t.year = u.year ∧ (t.month < u.month ∨ t.month = u.month ∧ t.day < u.day)) : t.days < u.days := by
  obtain ⟨hyear, -, hmonth, hlast, hday, hend, -⟩ := ht.bounds
  obtain ⟨-, -, hmonth', -, hday', -⟩ := hu.bounds
  rw [days, days]
  rcases h with hlt | ⟨heq, hlt | ⟨heq', hlt⟩⟩
  · have hyears := daysToYear_add_le hlt hyear
    have hmonths := daysToMonth_add_le t.year (show t.month < 13 by omega) hmonth
    omega
  · rw [heq] at hend ⊢
    have hmonths := daysToMonth_add_le u.year hlt hmonth
    omega
  · rw [heq, heq']
    omega

/-- Times are in the order of their fields. -/
theorem elapsed_lt (ht : t.Utc) (hu : u.Utc) (h : t.fields < u.fields) : t.elapsed < u.elapsed := by
  obtain ⟨-, -, -, -, -, -, hhour, hminute, hsecond⟩ := ht.bounds
  have hmicrosecond := ht.microsecond_lt
  simp only [fields, List.cons_lt_cons_iff, List.not_lt_nil, and_false, or_false] at h
  rw [elapsed, elapsed]
  have hdate := days_lt ht hu
  rcases h with hlt | ⟨hyear, hlt | ⟨hmonth, hlt | ⟨hday, h⟩⟩⟩
  · have hdays := hdate (.inl hlt)
    omega
  · have hdays := hdate (.inr ⟨hyear, .inl hlt⟩)
    omega
  · have hdays := hdate (.inr ⟨hyear, .inr ⟨hmonth, hlt⟩⟩)
    omega
  · rw [days, days, hyear, hmonth, hday]
    omega

private theorem elapsed_lt_iff (ht : t.Utc) (hu : u.Utc) : t.elapsed < u.elapsed ↔ t.fields < u.fields := by
  refine ⟨fun h => ?_, ht.elapsed_lt hu⟩
  refine Decidable.byContradiction fun hnot => ?_
  rcases List.le_iff_lt_or_eq.1 (List.not_lt.1 hnot) with hlt | heq
  · have hafter := hu.elapsed_lt ht hlt
    omega
  · simp only [fields, List.cons.injEq, and_true] at heq
    obtain ⟨hyear, hmonth, hday, hhour, hminute, hsecond, hmicrosecond⟩ := heq
    rw [elapsed, elapsed, days, days, hyear, hmonth, hday, hhour, hminute, hsecond, hmicrosecond] at h
    exact Nat.lt_irrefl _ h

/-- Texts of times are in the order of the times. -/
theorem text_lt_iff (ht : t.Utc) (hu : u.Utc) : t.text < u.text ↔ t.elapsed < u.elapsed := by
  rw [ht.elapsed_lt_iff hu, text, text, String.lt_iff, String.toList_ofList, String.toList_ofList,
    toChars, toChars, ht.offset_eq, hu.offset_eq]
  obtain ⟨-, hyear, -, hmonth, -, hday, hhour, hminute, hsecond⟩ := ht.bounds
  obtain ⟨-, hyear', -, hmonth', -, hday', hhour', hminute', hsecond'⟩ := hu.bounds
  have hlong := daysInMonth_le t.year t.month
  have hlong' := daysInMonth_le u.year u.month
  have hoffset : offsetChars 0 = '+' :: "00:00".toList := by decide
  simp only [hoffset, List.append_assoc, List.cons_append]
  rw [Decimal.fixed_append_lt_iff (by omega) (by omega), List.cons_lt_cons_self,
    Decimal.fixed_append_lt_iff (by omega) (by omega), List.cons_lt_cons_self,
    Decimal.fixed_append_lt_iff (by omega) (by omega), List.cons_lt_cons_self,
    Decimal.fixed_append_lt_iff (by omega) (by omega), List.cons_lt_cons_self,
    Decimal.fixed_append_lt_iff (by omega) (by omega), List.cons_lt_cons_self,
    Decimal.fixed_append_lt_iff (by omega) (by omega),
    fractionChars_lt_iff ht.microsecond_lt hu.microsecond_lt]
  simp only [fields, List.cons_lt_cons_iff, List.not_lt_nil, and_false, or_false]

/-- Times in UTC are ordered as their texts are. -/
theorem text_le_iff (ht : t.Utc) (hu : u.Utc) : t.text ≤ u.text ↔ t.elapsed ≤ u.elapsed := by
  rw [← String.not_lt, hu.text_lt_iff ht, Nat.not_lt]

end Utc

end Instant

end Earley
