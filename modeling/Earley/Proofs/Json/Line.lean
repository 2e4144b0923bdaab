import Earley.Proofs.Json.Units
import Earley.Proofs.Text.Pieces
import Mathlib.Tactic.IntervalCases

namespace Earley.Json

open Earley.Decimal Earley.Text

/-- A value that a record holds: a text, or a number that is not too long to be read. -/
inductive Legible : Json → Prop
  | string (s : String) : Legible (.string s)
  | halved (h : Halved) : Legible (.halved h)
  | int {n : Int} : (numeral n.natAbs).length ≤ maxIntDigits → Legible (.int n)

/-- Every text is legible, halves of surrogate pairs among its characters. -/
theorem Legible.ofText (t : AnyText) : Legible (ofText t) := by
  cases t with
  | whole s => exact .string s
  | halved h => exact .halved h

/-- What stands behind a value on a line. -/
def Stops (rest : List Char) : Prop := rest.head? = some ',' ∨ rest.head? = some '\x7d'

private theorem head?_numeral {n : Nat} (hn : 0 < n) : (numeral n).head? ≠ some '0' := by
  have hdigit : ∀ d < 10, 0 < d → digitChar d ≠ '0' := by decide
  induction n using Nat.strongRecOn with
  | ind n ih =>
    rw [numeral]
    split
    · next hsmall => simpa using hdigit n hsmall hn
    · obtain ⟨c, more, hcons⟩ := List.exists_cons_of_ne_nil (numeral_ne_nil (n / 10))
      have hhead := ih (n / 10) (by omega) (by omega)
      rw [hcons] at hhead ⊢
      exact hhead

private theorem isAsciiDigit_of_mem_numeral {n : Nat} {c : Char} (h : c ∈ numeral n) :
    isAsciiDigit c = true := by
  have hdigit : ∀ d < 10, isAsciiDigit (digitChar d) = true := by decide
  obtain ⟨d, hd, rfl⟩ := mem_numeral h
  exact hdigit d hd

/-- Behind a stop no digit, no fraction and no exponent is read. -/
theorem Stops.spec {rest : List Char} (h : Stops rest) : (∀ c ∈ rest.head?, isAsciiDigit c = false) ∧
    takeFraction rest = ([], rest) ∧ takeExponent? rest = none := by
  cases rest with
  | nil => rcases h with h | h <;> cases h
  | cons stop more =>
    have hstop : stop = ',' ∨ stop = '\x7d' := by simpa [Stops] using h
    rcases hstop with rfl | rfl <;> exact ⟨by rintro _ ⟨⟩; decide, rfl, rfl⟩

/-- Digits without a needless zero in front are read up to the end of the value. -/
theorem readNumber_digits (negative : Bool) {d : Char} {tail rest : List Char} (hd : isAsciiDigit d = true)
    (htail : ∀ c ∈ tail, isAsciiDigit c = true) (hzero : d = '0' → tail = []) (hrest : Stops rest)
    (left : Nat) :
    readNumber left negative (d :: (tail ++ rest)) =
      if maxIntDigits < (d :: tail).length then .error ⟨.longInteger (d :: tail).length, left⟩
      else .ok (.int (if negative then -(ofDigits (d :: tail) : Int) else ofDigits (d :: tail)), rest) := by
  obtain ⟨hstop, hfraction, hexponent⟩ := hrest.spec
  have hdigits : (if d == '0' then [d] else d :: (tail ++ rest).takeWhile isAsciiDigit) = d :: tail := by
    split
    · next h => rw [hzero (eq_of_beq h)]
    · rw [Text.takeWhile_append_stop htail hstop]
  have hbehind : (if d == '0' then tail ++ rest else (tail ++ rest).dropWhile isAsciiDigit) = rest := by
    split
    · next h => rw [hzero (eq_of_beq h), List.nil_append]
    · rw [Text.dropWhile_append_stop htail hstop]
  rw [readNumber, if_neg (by simp [hd]), hdigits, hbehind]
  dsimp only
  rw [hfraction]
  dsimp only
  rw [hexponent]
  dsimp only
  rw [if_pos (by decide)]

private theorem readNumber_numeral (negative : Bool) (n left : Nat) {rest : List Char} (hrest : Stops rest) :
    readNumber left negative (numeral n ++ rest) =
      if maxIntDigits < (numeral n).length then .error ⟨.longInteger (numeral n).length, left⟩
      else .ok (.int (if negative then -(n : Int) else n), rest) := by
  obtain ⟨d, tail, hnumeral⟩ := List.exists_cons_of_ne_nil (numeral_ne_nil n)
  have hall : ∀ c ∈ d :: tail, isAsciiDigit c = true :=
    fun c hc => isAsciiDigit_of_mem_numeral (hnumeral ▸ hc)
  obtain ⟨hd, htail⟩ := List.forall_mem_cons.1 hall
  have hzero : d = '0' → tail = [] := by
    rintro rfl
    rcases Nat.eq_zero_or_pos n with rfl | hpos
    · rw [numeral_zero] at hnumeral
      exact (List.cons.inj hnumeral).2.symm
    · exact absurd (by rw [hnumeral]; rfl) (head?_numeral hpos)
  have hread := readNumber_digits negative hd htail hzero hrest left
  rw [hnumeral, List.cons_append, hread, ← hnumeral, ofDigits_numeral]

/-- A value that begins with a digit is a number. -/
theorem readValue_digit {d : Nat} (hd : d < 10) (fuel : Nat) (rest : List Char) :
    readValue (fuel + 1) (digitChar d :: rest) =
      readNumber (digitChar d :: rest).length false (digitChar d :: rest) := by
  interval_cases d <;> rfl

/-- So is one that begins with a minus sign before a digit. -/
theorem readValue_minus {d : Nat} (hd : d < 10) (fuel : Nat) (rest : List Char) :
    readValue (fuel + 1) ('-' :: digitChar d :: rest) =
      readNumber ('-' :: digitChar d :: rest).length true (digitChar d :: rest) := by
  interval_cases d <;> rfl

/-- One that begins with a quotation mark is a text. -/
theorem readValue_quote (fuel : Nat) (rest : List Char) :
    readValue (fuel + 1) ('"' :: rest) =
      (readString ('"' :: rest).length rest).map fun (codes, more) => (.ofCodes codes, more) := rfl

private theorem exists_digit_cons_numeral (n : Nat) : ∃ d < 10, ∃ tail, numeral n = digitChar d :: tail := by
  obtain ⟨c, tail, hnumeral⟩ := List.exists_cons_of_ne_nil (numeral_ne_nil n)
  obtain ⟨d, hd, rfl⟩ := mem_numeral (hnumeral ▸ List.mem_cons_self)
  exact ⟨d, hd, tail, hnumeral⟩

/-- A whole number is read unless it has too many digits. -/
theorem readValue_integer (n : Int) (fuel : Nat) {rest : List Char} (hrest : Stops rest) :
    readValue (fuel + 1) (integer n ++ rest) =
      if maxIntDigits < (numeral n.natAbs).length then
        .error ⟨.longInteger (numeral n.natAbs).length, (integer n ++ rest).length⟩
      else .ok (.int n, rest) := by
  obtain ⟨d, hd, tail, hnumeral⟩ := exists_digit_cons_numeral n.natAbs
  by_cases hneg : n < 0
  · have htext : integer n = '-' :: numeral n.natAbs := if_pos hneg
    have hread := readNumber_numeral true n.natAbs (integer n ++ rest).length hrest
    have hvalue : (if true then -(n.natAbs : Int) else n.natAbs) = n := by
      rw [if_pos rfl]
      omega
    rw [hvalue] at hread
    rw [← hread, htext, hnumeral]
    exact readValue_minus hd fuel (tail ++ rest)
  · have htext : integer n = numeral n.natAbs := if_neg hneg
    have hread := readNumber_numeral false n.natAbs (integer n ++ rest).length hrest
    have hvalue : (if false then -(n.natAbs : Int) else n.natAbs) = n := by
      rw [if_neg (by decide)]
      omega
    rw [hvalue] at hread
    rw [← hread, htext, hnumeral]
    exact readValue_digit hd fuel (tail ++ rest)

private theorem lineChars_ofText (t : AnyText) : lineChars true (ofText t) = '"' :: quotedChars t := by
  cases t with
  | whole s =>
    rw [ofText, lineChars, scalarChars, ← quoteText_eq, quoteText]
    all_goals simp
  | halved h =>
    rw [ofText, lineChars, scalarChars, ← quoteText_eq, quoteText]
    all_goals simp

private theorem lineChars_int (n : Int) : lineChars true (.int n) = integer n := by
  rw [lineChars, scalarChars]
  all_goals simp

/-- A text or a whole number, of however many digits. -/
inductive Scalar : Json → Prop
  | text (t : AnyText) : Scalar (ofText t)
  | int (n : Int) : Scalar (.int n)

/-- What is legible has no members or elements. -/
theorem Legible.scalar {x : Json} (hx : Legible x) : Scalar x := by
  cases hx with
  | string s => exact .text (.whole s)
  | halved h => exact .text (.halved h)
  | int _ => exact .int _

/-- A blank in front of a value is passed over. -/
theorem skipSpace_lineChars {x : Json} (hx : Scalar x) (rest : List Char) :
    skipSpace (' ' :: (lineChars true x ++ rest)) = lineChars true x ++ rest := by
  have hdigit : ∀ d < 10, isSpace (digitChar d) = false := by decide
  cases hx with
  | text t =>
    rw [lineChars_ofText]
    rfl
  | int n =>
    obtain ⟨d, hd, tail, hnumeral⟩ := exists_digit_cons_numeral n.natAbs
    rw [lineChars_int, integer, hnumeral, skipSpace, List.dropWhile_cons_of_pos (by decide)]
    split
    · rfl
    · rw [List.cons_append, List.dropWhile_cons_of_neg (by simp [hdigit d hd])]

private theorem readValue_text (t : AnyText) (fuel : Nat) (rest : List Char) :
    readValue (fuel + 1) (lineChars true (ofText t) ++ rest) = .ok (ofText t, rest) := by
  rw [lineChars_ofText, List.cons_append, readValue_quote, readString_quotedChars]
  exact congrArg (fun text => Except.ok (ofText text, rest)) (ofCodes_codes t)

private theorem readValue_lineChars {x : Json} (hx : Legible x) (fuel : Nat) {rest : List Char}
    (hrest : Stops rest) :
    readValue (fuel + 1) (lineChars true x ++ rest) = .ok (x, rest) := by
  cases hx with
  | string s => exact readValue_text (.whole s) fuel rest
  | halved h => exact readValue_text (.halved h) fuel rest
  | int hlength => rw [lineChars_int, readValue_integer _ fuel hrest, if_neg (Nat.not_lt.2 hlength)]

/-- The characters of members behind the first brace. -/
def memberChars : List (String × Json) → List Char
  | [] => []
  | (name, x) :: rest => quote true name ++ ':' :: ' ' :: lineChars true x ++ lineMembers true rest

private theorem lineMembers_cons (name : String) (x : Json) (rest : List (String × Json)) :
    lineMembers true ((name, x) :: rest) = ',' :: ' ' :: memberChars ((name, x) :: rest) := by
  rw [lineMembers, memberChars]
  simp

/-- A brace opens an object. -/
theorem readValue_memberChars (fuel : Nat) (name : String) (x : Json) (others : List (String × Json))
    (rest : List Char) :
    readValue (fuel + 1) ('\x7b' :: (memberChars ((name, x) :: others) ++ rest)) =
      (readMembers fuel (memberChars ((name, x) :: others) ++ rest)).map
        fun (members, more) => (.ofMembers members, more) := rfl

private theorem stops_lineMembers (members : List (String × Json)) (rest : List Char) :
    Stops (lineMembers true members ++ '\x7d' :: rest) := by
  cases members with
  | nil => exact Or.inr rfl
  | cons m more =>
    obtain ⟨name, x⟩ := m
    rw [lineMembers_cons]
    exact Or.inl rfl

/-- Of a member its name is read, then its value, and then the members behind it. -/
theorem readMembers_cons {x : Json} (hx : Scalar x) (fuel : Nat) (name : String)
    (more : List (String × Json)) (rest : List Char) :
    readMembers (fuel + 1) (memberChars ((name, x) :: more) ++ '\x7d' :: rest) = (do
      let (y, behind) ← readValue fuel (lineChars true x ++ (lineMembers true more ++ '\x7d' :: rest))
      match skipSpace behind with
      | '\x7d' :: left => .ok ([(.whole name, y)], left)
      | ',' :: left =>
        let (members, left) ← readMembers fuel (skipSpace left)
        .ok ((.whole name, y) :: members, left)
      | other => .error ⟨.expectingComma, other.length⟩) := by
  have htext : memberChars ((name, x) :: more) ++ '\x7d' :: rest =
      '"' :: (quotedChars name ++ ':' :: ' ' :: (lineChars true x ++
        (lineMembers true more ++ '\x7d' :: rest))) := by
    simp [memberChars, quote, quotedChars]
  have hcolon (cs : List Char) : skipSpace (':' :: cs) = ':' :: cs := rfl
  rw [htext, readMembers, readString_quotedChars]
  simp only [bind, Except.bind, hcolon, ofCodes_codes]
  exact (skipSpace_lineChars hx _).symm ▸ rfl

/-- A legible member is read before those behind it. -/
theorem readMembers_next {x : Json} (hx : Legible x) (fuel : Nat) (name : String) (next : String × Json)
    (others : List (String × Json)) (rest : List Char) :
    readMembers (fuel + 1 + 1) (memberChars ((name, x) :: next :: others) ++ '\x7d' :: rest) =
      (readMembers (fuel + 1) (memberChars (next :: others) ++ '\x7d' :: rest)).map
        fun (members, left) => ((.whole name, x) :: members, left) := by
  have hspace : skipSpace (' ' :: (memberChars (next :: others) ++ '\x7d' :: rest)) =
      memberChars (next :: others) ++ '\x7d' :: rest := rfl
  have hcomma (cs : List Char) : skipSpace (',' :: cs) = ',' :: cs := rfl
  obtain ⟨name', x'⟩ := next
  rw [readMembers_cons hx.scalar, readValue_lineChars hx fuel (stops_lineMembers _ rest)]
  simp only [bind, Except.bind, lineMembers_cons, List.cons_append, hcomma, hspace]
  cases readMembers (fuel + 1) (memberChars ((name', x') :: others) ++ '\x7d' :: rest) <;> rfl

/-- Members as they are read, with names of the general kind. -/
def anyNamed (members : List (String × Json)) : List (AnyText × Json) :=
  members.map fun (name, x) => (.whole name, x)

/-- Members are read back in order. -/
theorem readMembers_memberChars {members : List (String × Json)} (hne : members ≠ [])
    (hlegible : ∀ m ∈ members, Legible m.2) {fuel : Nat} (hfuel : members.length < fuel) (rest : List Char) :
    readMembers fuel (memberChars members ++ '\x7d' :: rest) = .ok (anyNamed members, rest) := by
  induction members generalizing fuel with
  | nil => exact absurd rfl hne
  | cons m more ih =>
    obtain ⟨name, x⟩ := m
    obtain ⟨hx, hmore⟩ := List.forall_mem_cons.1 hlegible
    obtain ⟨fuel, rfl⟩ : ∃ k, fuel = k + 1 + 1 := ⟨fuel - 2, by simp at hfuel; omega⟩
    cases more with
    | nil =>
      rw [readMembers_cons hx.scalar, readValue_lineChars hx fuel (stops_lineMembers [] rest)]
      rfl
    | cons next others =>
      rw [readMembers_next hx, ih (List.cons_ne_nil _ _) hmore (by simp at hfuel ⊢; omega)]
      rfl

/-- Members are not read where one of them is a number with too many digits. -/
theorem readMembers_long {members : List (String × Json)} (hscalar : ∀ m ∈ members, Scalar m.2)
    (hlong : ∃ m ∈ members, ¬Legible m.2) (fuel : Nat) (rest : List Char) :
    ∃ fault, readMembers fuel (memberChars members ++ '\x7d' :: rest) = .error fault := by
  induction members generalizing fuel with
  | nil => simp at hlong
  | cons m more ih =>
    obtain ⟨name, x⟩ := m
    obtain ⟨hx, hmore⟩ := List.forall_mem_cons.1 hscalar
    rcases fuel with _ | _ | fuel
    · exact ⟨_, rfl⟩
    · rw [readMembers_cons hx]
      exact ⟨_, rfl⟩
    · by_cases hlegible : Legible x
      · have hlater : ∃ m ∈ more, ¬Legible m.2 := by simpa [hlegible] using hlong
        obtain ⟨next, others, rfl⟩ := List.exists_cons_of_ne_nil (List.ne_nil_of_mem hlater.choose_spec.1)
        obtain ⟨fault, hfault⟩ := ih hmore hlater (fuel + 1)
        rw [readMembers_next hlegible, hfault]
        exact ⟨fault, rfl⟩
      · cases hx with
        | text t => exact absurd (.ofText t) hlegible
        | int n =>
          have hlength : maxIntDigits < (numeral n.natAbs).length :=
            Nat.not_le.1 fun hshort => hlegible (.int hshort)
          rw [readMembers_cons (.int n), lineChars_int, readValue_integer n fuel (stops_lineMembers more rest),
            if_pos hlength]
          exact ⟨_, rfl⟩

private theorem length_le_lineMembers (members : List (String × Json)) :
    members.length ≤ (lineMembers true members).length := by
  induction members with
  | nil => exact Nat.zero_le _
  | cons m more ih =>
    obtain ⟨name, x⟩ := m
    rw [lineMembers_cons, memberChars, List.length_cons]
    simp only [List.length_cons, List.length_append]
    omega

/-- An object on a line is read by its members. -/
theorem read_lineChars_object (m : String × Json) (more : List (String × Json)) :
    ∃ fuel, (m :: more).length < fuel ∧ read (lineChars true (.object (m :: more))) = (do
      let (members, rest) ← readMembers fuel (memberChars (m :: more) ++ ['\x7d'])
      match skipSpace rest with
      | [] => .ok (ofMembers members)
      | left => .error ⟨.extraData, left.length⟩) := by
  obtain ⟨name, x⟩ := m
  have htext : lineChars true (.object ((name, x) :: more)) =
      '\x7b' :: (memberChars ((name, x) :: more) ++ ['\x7d']) := by
    rw [lineChars, memberChars]
    simp
  have hopen : skipSpace ('\x7b' :: (memberChars ((name, x) :: more) ++ ['\x7d'])) =
      '\x7b' :: (memberChars ((name, x) :: more) ++ ['\x7d']) := rfl
  refine ⟨2 * ('\x7b' :: (memberChars ((name, x) :: more) ++ ['\x7d'])).length, ?_, ?_⟩
  · have hlength := length_le_lineMembers more
    simp only [memberChars, List.length_cons, List.length_append]
    omega
  · rw [htext, read, hopen, readValue_memberChars]
    cases readMembers _ (memberChars ((name, x) :: more) ++ ['\x7d']) <;> rfl

/-- An object of texts and numbers is read back from its line. -/
theorem read_lineChars {members : List (String × Json)} (hne : members ≠ [])
    (hlegible : ∀ m ∈ members, Legible m.2) :
    read (lineChars true (.object members)) = .ok (ofMembers (anyNamed members)) := by
  obtain ⟨m, more, rfl⟩ := List.exists_cons_of_ne_nil hne
  obtain ⟨fuel, hfuel, hread⟩ := read_lineChars_object m more
  rw [hread, readMembers_memberChars hne hlegible hfuel []]
  rfl

/-- Where a number in it has too many digits, an object is not read back. -/
theorem read_lineChars_long {members : List (String × Json)} (hscalar : ∀ m ∈ members, Scalar m.2)
    (hlong : ∃ m ∈ members, ¬Legible m.2) : ∃ fault, read (lineChars true (.object members)) = .error fault := by
  obtain ⟨m, more, rfl⟩ := List.exists_cons_of_ne_nil (List.ne_nil_of_mem hlong.choose_spec.1)
  obtain ⟨fuel, -, hread⟩ := read_lineChars_object m more
  obtain ⟨fault, hfault⟩ := readMembers_long hscalar hlong fuel []
  rw [hread, hfault]
  exact ⟨fault, rfl⟩

end Earley.Json
