import Earley.Proofs.Decimal.Integer

namespace Earley.Decimal

open Text

/-- A sign that may stand in front of digits. -/
def IsSign (sign? : Option Char) : Prop := ∀ c ∈ sign?, c = '-' ∨ c = '+'

/-- A power of ten behind a number. -/
structure Exponent where
  mark : Char
  sign? : Option Char
  digits : List Char
deriving DecidableEq

namespace Exponent

def text (e : Exponent) : List Char := e.mark :: (e.sign?.toList ++ e.digits)

def value (e : Exponent) : Int :=
  if e.sign? = some '-' then -(ofDigits e.digits : Int) else ofDigits e.digits

structure Proper (e : Exponent) : Prop where
  mark : e.mark = 'e' ∨ e.mark = 'E'
  sign : IsSign e.sign?
  digits_ne : e.digits ≠ []
  digits : ∀ c ∈ e.digits, isDecimal c = true

end Exponent

/-- A point with digits behind it, if there is one. -/
def pointed (fraction? : Option (List Char)) : List Char := fraction?.elim [] ('.' :: ·)

/-- A number in decimal notation: perhaps a sign, digits on at least one side of a point that may be
missing, and perhaps an exponent. -/
structure Form where
  sign? : Option Char
  whole : List Char
  fraction? : Option (List Char)
  exponent? : Option Exponent
deriving DecidableEq

namespace Form

/-- All digits before the exponent. -/
def digits (f : Form) : List Char := f.whole ++ f.fraction?.getD []

/-- What stands behind the sign. -/
def body (f : Form) : List Char :=
  f.whole ++ (pointed f.fraction? ++ f.exponent?.elim [] Exponent.text)

def text (f : Form) : List Char := f.sign?.toList ++ f.body

/-- The number that the parts tell. -/
def written (f : Form) : Written :=
  ⟨f.sign? = some '-', ofDigits f.digits, f.exponent?.elim 0 Exponent.value - (f.fraction?.getD []).length⟩

structure Proper (f : Form) : Prop where
  sign : IsSign f.sign?
  digits_ne : f.digits ≠ []
  digits : ∀ c ∈ f.digits, isDecimal c = true
  exponent : ∀ e ∈ f.exponent?, e.Proper

end Form

private theorem takeSign_cons {c : Char} (hminus : c ≠ '-') (hplus : c ≠ '+') (cs : List Char) :
    takeSign (c :: cs) = (false, c :: cs) := by
  rw [takeSign]
  · rintro _ ⟨⟩
    exact hminus rfl
  · rintro _ ⟨⟩
    exact hplus rfl

private theorem ne_of_isDecimal {c d : Char} (hc : isDecimal c = true) (hd : isDecimal d = false) :
    c ≠ d := by
  rintro rfl
  rw [hc] at hd
  cases hd

private theorem takeSign_append {sign? : Option Char} (hsign : IsSign sign?) {body : List Char}
    (hbody : ∀ c ∈ body.head?, c ≠ '-' ∧ c ≠ '+') :
    takeSign (sign?.toList ++ body) = (decide (sign? = some '-'), body) := by
  cases sign? with
  | none =>
    cases body with
    | nil => rfl
    | cons c rest => exact takeSign_cons (hbody c rfl).1 (hbody c rfl).2 rest
  | some c => obtain rfl | rfl := hsign c rfl <;> rfl

private theorem exists_sign (cs : List Char) : ∃ sign? body, IsSign sign? ∧ cs = sign?.toList ++ body ∧
    takeSign cs = (decide (sign? = some '-'), body) := by
  unfold takeSign
  split
  · next rest => exact ⟨some '-', rest, by simp [IsSign], rfl, rfl⟩
  · next rest => exact ⟨some '+', rest, by simp [IsSign], rfl, rfl⟩
  · exact ⟨none, cs, by simp [IsSign], rfl, rfl⟩

private theorem ne_sign_of_isDecimal {c : Char} (hc : isDecimal c = true) : c ≠ '-' ∧ c ≠ '+' :=
  ⟨ne_of_isDecimal hc (by decide), ne_of_isDecimal hc (by decide)⟩

namespace Exponent

variable {e : Exponent}

private theorem Proper.readExponent?_text (h : e.Proper) : readExponent? e.text = some e.value := by
  obtain ⟨first, rest, hfirst⟩ := List.exists_cons_of_ne_nil h.digits_ne
  have hsign : takeSign (e.sign?.toList ++ e.digits) = (decide (e.sign? = some '-'), e.digits) := by
    apply takeSign_append h.sign
    rw [hfirst]
    rintro _ ⟨⟩
    exact ne_sign_of_isDecimal (h.digits first (hfirst ▸ List.mem_cons_self))
  have hmark : (e.mark == 'e' || e.mark == 'E') = true := by simpa using h.mark
  have hdigits : (e.digits.isEmpty || !e.digits.all isDecimal) = false := by
    rw [List.all_eq_true.2 h.digits, hfirst]
    rfl
  rw [text, readExponent?, if_pos hmark, hsign]
  dsimp only
  rw [hdigits, value]
  simp

private theorem exists_of_readExponent? {cs : List Char} {n : Int} (h : readExponent? cs = some n) :
    ∃ e? : Option Exponent, (∀ e ∈ e?, e.Proper) ∧ e?.elim [] text = cs ∧ e?.elim 0 value = n := by
  cases cs with
  | nil =>
    cases h
    exact ⟨none, by simp, rfl, rfl⟩
  | cons mark rest =>
    obtain ⟨sign?, digits, hsign, rfl, htake⟩ := exists_sign rest
    rw [readExponent?, htake] at h
    split at h
    · next hmark =>
      dsimp only at h
      split at h
      · cases h
      · next hdigits =>
        rw [Bool.or_eq_true_iff, not_or] at hdigits
        refine ⟨some ⟨mark, sign?, digits⟩, ?_, rfl, ?_⟩
        · rintro _ ⟨⟩
          exact ⟨by simpa using hmark, hsign, by simpa using hdigits.1, by simpa using hdigits.2⟩
        · simpa [value] using h
    · cases h

end Exponent

/-- Digits, perhaps a point with digits behind it, and what follows. -/
theorem readWritten?_parts {cs whole tail : List Char} {fraction? : Option (List Char)} {negative : Bool}
    (hsign : takeSign cs = (negative, whole ++ (pointed fraction? ++ tail)))
    (hwhole : ∀ c ∈ whole, isDecimal c = true)
    (hfraction : ∀ c ∈ fraction?.getD [], isDecimal c = true)
    (htail : ∀ c ∈ tail.head?, isDecimal c = false ∧ (fraction? = none → c ≠ '.')) :
    readWritten? cs =
      if whole ++ fraction?.getD [] = [] then none
      else (readExponent? tail).map fun exponent =>
        ⟨negative, ofDigits (whole ++ fraction?.getD []), exponent - (fraction?.getD []).length⟩ := by
  have hdigit : ∀ c ∈ tail.head?, isDecimal c = false := fun c hc => (htail c hc).1
  rw [readWritten?, hsign]
  cases fraction? with
  | none =>
    simp only [pointed, Option.elim_none, List.nil_append, takeWhile_append_stop hwhole hdigit,
      dropWhile_append_stop hwhole hdigit]
    split
    · exact absurd rfl ((htail '.' rfl).2 rfl)
    · simp
  | some fraction =>
    have hfraction : ∀ c ∈ fraction, isDecimal c = true := hfraction
    have hpoint : ∀ c ∈ ('.' :: (fraction ++ tail)).head?, isDecimal c = false := by
      rintro _ ⟨⟩
      decide
    simp only [pointed, Option.elim_some, List.cons_append, takeWhile_append_stop hwhole hpoint,
      dropWhile_append_stop hwhole hpoint, takeWhile_append_stop hfraction hdigit,
      dropWhile_append_stop hfraction hdigit]
    simp

/-- A text falls into such parts in any case. -/
theorem exists_parts (body : List Char) : ∃ whole fraction? tail,
    body = whole ++ (pointed fraction? ++ tail) ∧ (∀ c ∈ whole, isDecimal c = true) ∧
      (∀ c ∈ fraction?.getD [], isDecimal c = true) ∧
      ∀ c ∈ tail.head?, isDecimal c = false ∧ (fraction? = none → c ≠ '.') := by
  have hdigits (cs : List Char) : ∀ c ∈ cs.takeWhile isDecimal, isDecimal c = true :=
    List.all_eq_true.1 List.all_takeWhile
  have hstop (cs : List Char) : ∀ c ∈ (cs.dropWhile isDecimal).head?, isDecimal c = false := by
    intro c hc
    have hhead := List.head?_dropWhile_not isDecimal cs
    rwa [Option.mem_def.1 hc] at hhead
  have hbody := @List.takeWhile_append_dropWhile _ isDecimal body
  by_cases hpoint : (body.dropWhile isDecimal).head? = some '.'
  · obtain ⟨rest, hrest⟩ := List.head?_eq_some_iff.1 hpoint
    refine ⟨body.takeWhile isDecimal, some (rest.takeWhile isDecimal), rest.dropWhile isDecimal, ?_,
      hdigits body, hdigits rest, fun c hc => ⟨hstop rest c hc, by simp⟩⟩
    rw [pointed, Option.elim_some, List.cons_append, List.takeWhile_append_dropWhile, ← hrest, hbody]
  · refine ⟨body.takeWhile isDecimal, none, body.dropWhile isDecimal, hbody.symm, hdigits body,
      by simp, fun c hc => ⟨hstop body c hc, ?_⟩⟩
    rintro - rfl
    exact hpoint hc

namespace Form

variable {f : Form}

private theorem Proper.head_exponent (h : f.Proper) :
    ∀ c ∈ (f.exponent?.elim [] Exponent.text).head?, isDecimal c = false ∧ (f.fraction? = none → c ≠ '.') := by
  cases hexponent : f.exponent? with
  | none => simp
  | some e =>
    rintro _ ⟨⟩
    obtain hmark | hmark := (h.exponent e hexponent).mark <;> rw [hmark] <;>
      exact ⟨by decide, fun _ => by decide⟩

private theorem Proper.readExponent?_exponent (h : f.Proper) :
    readExponent? (f.exponent?.elim [] Exponent.text) = some (f.exponent?.elim 0 Exponent.value) := by
  cases hexponent : f.exponent? with
  | none => rfl
  | some e => exact (h.exponent e hexponent).readExponent?_text

private theorem Proper.head_body (h : f.Proper) : ∃ c ∈ f.body.head?, isDecimal c = true ∨ c = '.' := by
  have hne := h.digits_ne
  rw [Form.digits] at hne
  rw [body]
  cases hwhole : f.whole with
  | cons c rest => exact ⟨c, rfl, .inl (h.digits c (by simp [Form.digits, hwhole]))⟩
  | nil =>
    cases hfraction : f.fraction? with
    | none => simp [hwhole, hfraction] at hne
    | some fraction => exact ⟨'.', rfl, .inr rfl⟩

private theorem Proper.takeSign_text (h : f.Proper) :
    takeSign f.text = (decide (f.sign? = some '-'), f.body) := by
  apply takeSign_append h.sign
  intro c hc
  obtain ⟨d, hd, hdigit | rfl⟩ := h.head_body
  · exact Option.mem_unique hd hc ▸ ne_sign_of_isDecimal hdigit
  · exact Option.mem_unique hd hc ▸ by decide

/-- A text of this form is read as the number that it tells. -/
theorem Proper.readWritten?_text (h : f.Proper) : readWritten? f.text = some f.written := by
  have hwhole : ∀ c ∈ f.whole, isDecimal c = true :=
    fun c hc => h.digits c (List.mem_append_left _ hc)
  have hfraction : ∀ c ∈ f.fraction?.getD [], isDecimal c = true :=
    fun c hc => h.digits c (List.mem_append_right _ hc)
  have hne : f.whole ++ f.fraction?.getD [] ≠ [] := h.digits_ne
  rw [readWritten?_parts h.takeSign_text hwhole hfraction h.head_exponent, if_neg hne,
    h.readExponent?_exponent]
  rfl

/-- The texts that are read as numbers have this form. -/
theorem exists_of_readWritten? {cs : List Char} {w : Written} (h : readWritten? cs = some w) :
    ∃ f : Form, f.Proper ∧ f.text = cs ∧ f.written = w := by
  obtain ⟨sign?, body, hsign, rfl, htake⟩ := exists_sign cs
  obtain ⟨whole, fraction?, tail, rfl, hwhole, hfraction, htail⟩ := exists_parts body
  rw [readWritten?_parts htake hwhole hfraction htail] at h
  split at h
  · cases h
  · next hne =>
    obtain ⟨exponent, hexponent, rfl⟩ := Option.map_eq_some_iff.1 h
    obtain ⟨e?, hproper, rfl, rfl⟩ := Exponent.exists_of_readExponent? hexponent
    exact ⟨⟨sign?, whole, fraction?, e?⟩,
      ⟨hsign, hne, List.forall_mem_append.2 ⟨hwhole, hfraction⟩, hproper⟩, rfl, rfl⟩

end Form

private theorem exists_zero {zeros : List Nat} {n d : Nat} (h : digitAfter zeros n = some d) :
    ∃ first ∈ zeros, first ≤ n ∧ n < first + 10 := by
  induction zeros with
  | nil => cases h
  | cons first rest ih =>
    rw [digitAfter] at h
    split at h
    · cases h
    · next hlow =>
      split at h
      · next hhigh => exact ⟨first, List.mem_cons_self, Nat.le_of_not_lt hlow, hhigh⟩
      · obtain ⟨found, hmem, hfound⟩ := ih h
        exact ⟨found, List.mem_cons_of_mem _ hmem, hfound⟩

/-- A digit of any script stands less than ten places behind a zero. -/
theorem exists_zero_of_isDecimal {c : Char} (h : isDecimal c = true) :
    ∃ first ∈ decimalZeros, first ≤ c.toNat ∧ c.toNat < first + 10 := by
  obtain ⟨d, hd⟩ := Option.isSome_iff_exists.1 h
  exact exists_zero hd

private theorem decimalZeros_apart : ∀ blank ∈ blanks, ∀ first ∈ decimalZeros,
    blank.2 < first ∨ first + 10 ≤ blank.1 := by
  decide +kernel

private theorem isBlank_of_isDecimal {c : Char} (h : isDecimal c = true) : isBlank c = false := by
  rw [← Bool.not_eq_true]
  intro hblank
  obtain ⟨blank, hmem, hlow, hhigh⟩ := Ranges.exists_of_contains hblank
  obtain ⟨first, hfirst, hfrom, hto⟩ := exists_zero_of_isDecimal h
  rcases decimalZeros_apart blank hmem first hfirst with hlt | hlt <;> omega

private theorem capitals_apart : ∀ first ∈ decimalZeros, 'Z'.toNat < first ∨ first + 10 ≤ 'A'.toNat := by
  decide

private theorem toLower_of_isDecimal {c : Char} (h : isDecimal c = true) : c.toLower = c := by
  obtain ⟨first, hfirst, hfrom, hto⟩ := exists_zero_of_isDecimal h
  apply dif_neg
  rintro ⟨hlow, hhigh⟩
  have hlow : 'A'.toNat ≤ c.toNat := hlow
  have hhigh : c.toNat ≤ 'Z'.toNat := hhigh
  rcases capitals_apart first hfirst with hlt | hlt <;> omega

namespace Form

variable {f : Form}

private theorem Proper.mem_text (h : f.Proper) {c : Char} (hc : c ∈ f.text) :
    isDecimal c = true ∨ c ∈ ['-', '+', '.', 'e', 'E'] := by
  have hsign {sign? : Option Char} (hsign : IsSign sign?) (hc : c ∈ sign?.toList) :
      isDecimal c = true ∨ c ∈ ['-', '+', '.', 'e', 'E'] := by
    obtain rfl | rfl := hsign c (Option.mem_toList.1 hc) <;> simp
  rcases List.mem_append.1 hc with hfront | hbody
  · exact hsign h.sign hfront
  · rcases List.mem_append.1 hbody with hwhole | hbehind
    · exact .inl (h.digits c (List.mem_append_left _ hwhole))
    · rcases List.mem_append.1 hbehind with hfraction | hexponent
      · cases hf : f.fraction? with
        | none => simp [pointed, hf] at hfraction
        | some fraction =>
          rw [hf] at hfraction
          rcases List.mem_cons.1 hfraction with rfl | hdigit
          · simp
          · exact .inl (h.digits c (List.mem_append_right _ (by rwa [hf])))
      · cases he : f.exponent? with
        | none => simp [he] at hexponent
        | some e =>
          have hproper := h.exponent e he
          rw [he] at hexponent
          rcases List.mem_cons.1 hexponent with rfl | hexponent
          · obtain hmark | hmark := hproper.mark <;> simp [hmark]
          · rcases List.mem_append.1 hexponent with hfront | hdigit
            · exact hsign hproper.sign hfront
            · exact .inl (hproper.digits c hdigit)

/-- A number holds no blanks, low lines or brackets. -/
theorem Proper.plain (h : f.Proper) {c : Char} (hc : c ∈ f.text) :
    isBlank c = false ∧ c ≠ '_' ∧ c ≠ '[' := by
  rcases h.mem_text hc with hdigit | hother
  · exact ⟨isBlank_of_isDecimal hdigit, ne_of_isDecimal hdigit (by decide), ne_of_isDecimal hdigit (by decide)⟩
  · have hall : (['-', '+', '.', 'e', 'E'].all fun c => !isBlank c && c != '_' && c != '[') = true := by
      decide
    simpa [and_assoc] using List.all_eq_true.1 hall c hother

private theorem Proper.readNamed?_text (h : f.Proper) : readNamed? f.text = none := by
  obtain ⟨c, hc, hform⟩ := h.head_body
  obtain ⟨rest, hrest⟩ := List.head?_eq_some_iff.1 hc
  have hlower : c.toLower ≠ 'i' ∧ c.toLower ≠ 'n' := by
    obtain hdigit | rfl := hform
    · rw [toLower_of_isDecimal hdigit]
      exact ⟨ne_of_isDecimal hdigit (by decide), ne_of_isDecimal hdigit (by decide)⟩
    · decide
  rw [readNamed?, h.takeSign_text, hrest]
  simp [hlower]

/-- Such a text is that number also where names of numbers and low lines are understood. -/
theorem Proper.readBinary64?_text (h : f.Proper) : readBinary64? f.text = some f.written.toBinary64 := by
  have hline : '_' ∉ f.text := fun hmem => (h.plain hmem).2.1 rfl
  rw [readBinary64?, trimNumber_of_solid fun c hc => (h.plain hc).1,
    h.readNamed?_text, joinDigits?_of_not_mem hline]
  simp [h.readWritten?_text]

end Form

end Earley.Decimal
