namespace Earley

namespace Text

/-- The first half of a surrogate pair. -/
def isHighHalf (n : Nat) : Bool := 0xD800 ≤ n && n < 0xDC00

/-- The second half of a surrogate pair. -/
def isLowHalf (n : Nat) : Bool := 0xDC00 ≤ n && n < 0xE000

/-- A half of a surrogate pair, which is no character. -/
def isHalf (n : Nat) : Bool := isHighHalf n || isLowHalf n

/-- The character of a code point; for a half of a pair the replacement character stands in. -/
def standIn (n : Nat) : Char :=
  if isHalf n then '\uFFFD' else Char.ofNat n

/-- Whether no first half stands right before a second half: those two are taken for the character that
JSON spells with them, however they were put into bytes. -/
def isUnpaired : List Nat → Bool
  | high :: low :: rest => !(isHighHalf high && isLowHalf low) && isUnpaired (low :: rest)
  | _ => true

/-- Whether code points make up a text that has halves of pairs among its characters. -/
def isHalved (codes : List Nat) : Bool :=
  codes.any isHalf && codes.all (· < 0x110000) && isUnpaired codes

/-- The numbers of the characters for private use. Like halves of pairs they are neither parts of
words nor blanks, have no other case and are not shown in quotes. -/
def privateUse : List Nat :=
  List.range' 0xE000 0x1900 ++ List.range' 0xF0000 0xFFFE ++ List.range' 0x100000 0xFFFE

/-- The first numbers that a text leaves free, as many as are asked for. -/
def freeNumbers (codes : List Nat) : Nat → List Nat → List Nat
  | count + 1, n :: rest =>
    if codes.contains n then freeNumbers codes (count + 1) rest else n :: freeNumbers codes count rest
  | _, _ => []

end Text

open Text

/-- A text that has halves of surrogate pairs among its characters. -/
structure Halved where
  codes : List Nat
  isHalved : Text.isHalved codes = true
deriving DecidableEq, Repr

namespace Halved

/-- A character for each half that the text has. The text itself has none of them. -/
def marks (h : Halved) : List (Nat × Char) :=
  let halves := (h.codes.filter isHalf).eraseDups
  halves.zip ((freeNumbers h.codes halves.length privateUse).map Char.ofNat)

/-- The text with characters in the place of halves. -/
def shown (h : Halved) : String :=
  let marks := h.marks
  String.ofList (h.codes.map fun n => ((marks.find? (·.1 == n)).map Prod.snd).getD (standIn n))

end Halved

/-- A text as others give it, who may name halves of surrogate pairs in it. -/
inductive AnyText where
  | whole (text : String)
  | halved (text : Halved)
deriving DecidableEq, Repr

namespace AnyText

instance : Coe String AnyText := ⟨.whole⟩

/-- The text of code points. -/
def ofCodes (codes : List Nat) : AnyText :=
  if h : isHalved codes = true then .halved ⟨codes, h⟩
  else .whole (String.ofList (codes.map standIn))

def codes : AnyText → List Nat
  | .whole s => s.toList.map Char.toNat
  | .halved h => h.codes

def whole? : AnyText → Option String
  | .whole s => some s
  | .halved _ => none

def isWhole (t : AnyText) : Bool := t.whole?.isSome

/-- The text, or else the text with characters in the place of halves. -/
def shown : AnyText → String
  | .whole s => s
  | .halved h => h.shown

/-- The characters that stand in for halves where the text is shown. -/
def marks : AnyText → List (Nat × Char)
  | .whole _ => []
  | .halved h => h.marks

/-- A text with halves in the place of the characters that stand in for them. -/
def unmark (marks : List (Nat × Char)) (s : String) : AnyText :=
  ofCodes (s.toList.map fun c => ((marks.find? (·.2 == c)).map Prod.fst).getD c.toNat)

end AnyText

end Earley
