import Earley.Binary64
import Earley.Decimal.Numeral
import Earley.Text.Blank
import Earley.Text.Digit

namespace Earley.Decimal

open Earley.Text

/-- A decimal number as written: sign, digits as one whole number, and the power of ten to scale
by. -/
structure Written where
  negative : Bool
  digits : Nat
  exponent : Int
deriving DecidableEq, Repr

/-- The nearest binary64 number. Exponents that no magnitude can meet are answered without
computing the power of ten. -/
def Written.toBinary64 (w : Written) : Binary64 :=
  let size : Int := (numeral w.digits).length + w.exponent
  if w.digits = 0 || size < -330 then Binary64.ofRank w.negative 0
  else if 310 < size then .infinite w.negative
  else match w.exponent with
    | .ofNat e => Binary64.ofUnits w.negative (w.digits * Nat.pow 10 e * Binary64.unitsPerOne) 1
    | .negSucc e => Binary64.ofUnits w.negative (w.digits * Binary64.unitsPerOne) (Nat.pow 10 (e + 1))

/-- The whole number that a run of decimal digits denotes. -/
def ofDigits (cs : List Char) : Nat :=
  cs.foldl (fun n c => 10 * n + (digitValue? c).getD 0) 0

/-- A sign in front, and what follows it. -/
def takeSign : List Char → Bool × List Char
  | '-' :: rest => (true, rest)
  | '+' :: rest => (false, rest)
  | cs => (false, cs)

/-- An exponent mark with its signed digits; the empty text stands for the exponent zero. -/
def readExponent? : List Char → Option Int
  | [] => some 0
  | mark :: rest =>
    if mark == 'e' || mark == 'E' then
      let (negative, digits) := takeSign rest
      if digits.isEmpty || !digits.all isDecimal then none
      else some (if negative then -(ofDigits digits : Int) else ofDigits digits)
    else none

/-- The number that the whole text is: digits on at least one side of an optional point, then an
optional exponent. -/
def readWritten? (cs : List Char) : Option Written :=
  let (negative, body) := takeSign cs
  let whole := body.takeWhile isDecimal
  let afterWhole := body.dropWhile isDecimal
  let (fraction, tail) := match afterWhole with
    | '.' :: rest => (rest.takeWhile isDecimal, rest.dropWhile isDecimal)
    | rest => ([], rest)
  if whole.isEmpty && fraction.isEmpty then none
  else (readExponent? tail).map fun exponent =>
    ⟨negative, ofDigits (whole ++ fraction), exponent - fraction.length⟩

/-- The text without its low lines, each of which must stand between two digits; `last` is the
character before the text. -/
def joinDigits? (last : Char) : List Char → Option (List Char)
  | [] => some []
  | '_' :: c :: rest =>
    if isDecimal last && isDecimal c then (joinDigits? c rest).map (c :: ·) else none
  | ['_'] => none
  | c :: rest => (joinDigits? c rest).map (c :: ·)

/-- Blanks that may stand around a number: the separators U+001C to U+001F are not among them. -/
def isNumberBlank (c : Char) : Bool :=
  isBlank c && !(28 ≤ c.toNat && c.toNat ≤ 31)

/-- The text without such blanks at its ends. -/
def trimNumber (cs : List Char) : List Char :=
  ((cs.dropWhile isNumberBlank).reverse.dropWhile isNumberBlank).reverse

/-- The names of the values that have no digits. -/
def readNamed? (cs : List Char) : Option Binary64 :=
  let (negative, body) := takeSign cs
  let name := body.map Char.toLower
  if name == ['i', 'n', 'f'] || name == ['i', 'n', 'f', 'i', 'n', 'i', 't', 'y'] then
    some (.infinite negative)
  else if name == ['n', 'a', 'n'] then some .nan
  else none

/-- The binary64 number that a text denotes, if it denotes one: digits of every script, an optional
sign, point and exponent, and single low lines between digits. Blanks may stand around it. -/
def readBinary64? (cs : List Char) : Option Binary64 :=
  let body := trimNumber cs
  (readNamed? body).orElse fun _ =>
    ((joinDigits? ' ' body).bind readWritten?).map Written.toBinary64

/-- Why a text is no integer. -/
inductive IntFault where
  | malformed (text : String)
  | tooLong (digits : Nat)
deriving DecidableEq, Repr

/-- Longer integers are refused. -/
def maxIntDigits : Nat := 4300

/-- The digits that an integer's text begins with, its low lines left out. -/
def leadingDigits (last : Char) : List Char → List Char
  | [] => []
  | c :: rest =>
    if isDecimal c then c :: leadingDigits c rest
    else if c == '_' && isDecimal last then leadingDigits c rest
    else []

/-- The integer that a text denotes. The count of its leading digits is looked at before what
follows them. -/
def readInt (text : String) : Except IntFault Int :=
  let (negative, body) := takeSign (trimNumber text.toList)
  let digits := leadingDigits ' ' body
  if maxIntDigits < digits.length then .error (.tooLong digits.length)
  else match joinDigits? ' ' body with
    | some plain =>
      if plain.isEmpty || !plain.all isDecimal then .error (.malformed text)
      else .ok (if negative then -(ofDigits plain : Int) else ofDigits plain)
    | none => .error (.malformed text)

end Earley.Decimal
