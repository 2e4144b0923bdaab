import Earley.Text.Ranges

namespace Earley.Text

/-- The zeros of the decimal scripts of Unicode 14; nine digits follow each of them. -/
def decimalZeros : List Nat :=
  [48, 1632, 1776, 1984, 2406, 2534, 2662, 2790, 2918, 3046, 3174, 3302, 3430, 3558, 3664, 3792,
   3872, 4160, 4240, 6112, 6160, 6470, 6608, 6784, 6800, 6992, 7088, 7232, 7248, 42528, 43216,
   43264, 43472, 43504, 43600, 44016, 65296, 66720, 68912, 69734, 69872, 69942, 70096, 70384,
   70736, 70864, 71248, 71360, 71472, 71904, 72016, 72784, 73040, 73120, 92768, 92864, 93008,
   120782, 120792, 120802, 120812, 120822, 123200, 123632, 125264, 130032]

/-- The value of `n` among the ten digits that begin at one of the given zeros. -/
def digitAfter : List Nat → Nat → Option Nat
  | [], _ => none
  | first :: rest, n =>
    if n < first then none else if n < first + 10 then some (n - first) else digitAfter rest n

/-- The value of a decimal digit of any script. -/
def digitValue? (c : Char) : Option Nat :=
  digitAfter decimalZeros c.toNat

/-- A digit that takes part in decimal notation. -/
def isDecimal (c : Char) : Bool :=
  (digitValue? c).isSome

/-- Digit characters outside decimal notation. -/
def figureDigits : Ranges :=
  [(178, 179), (185, 185), (4969, 4977), (6618, 6618), (8304, 8304), (8308, 8313), (8320, 8329),
   (9312, 9320), (9332, 9340), (9352, 9360), (9450, 9450), (9461, 9469), (9471, 9471),
   (10102, 10110), (10112, 10120), (10122, 10130), (68160, 68163), (69216, 69224), (69714, 69722),
   (127232, 127242)]

/-- A decimal digit, or a character that shows one (`²`, `①`). -/
def isDigit (c : Char) : Bool :=
  isDecimal c || figureDigits.contains c.toNat

end Earley.Text
