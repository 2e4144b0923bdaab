import Earley.Decimal.Shortest
import Earley.Text.Quoted

namespace Earley

/-- The weight of a rule. It takes no part in parsing. -/
abbrev Weight := Binary64

namespace Weight

/-- How the text of a finite number is laid out. -/
structure Layout where
  /-- The least and the greatest place of the point that is written without an exponent. -/
  positional : Int × Int
  /-- The least count of exponent digits. -/
  exponentDigits : Nat

/-- Weights are positional from `0.0001` to below `10 ^ 16`; exponents have two digits or more. -/
def layout : Layout := ⟨(-3, 16), 2⟩

/-- The digits of a number without zeros at the end, and the place of the point before them. -/
def digitsAndPlace (w : Decimal.Written) : List Char × Int :=
  let all := Decimal.numeral w.digits
  let kept := (all.reverse.dropWhile (· == '0')).reverse
  (if kept.isEmpty then ['0'] else kept, if w.digits = 0 then 1 else all.length + w.exponent)

/-- The digits with the point where it belongs, and at least one digit on each side of it. -/
def positional (digits : List Char) (place : Int) : List Char :=
  if place ≤ 0 then '0' :: '.' :: (List.replicate (-place).toNat '0' ++ digits)
  else
    let n := place.toNat
    let whole := digits.take n ++ List.replicate (n - digits.length) '0'
    let fraction := digits.drop n
    whole ++ '.' :: (if fraction.isEmpty then ['0'] else fraction)

/-- One digit before the point, and the power of ten. -/
def scientific (layout : Layout) (digits : List Char) (place : Int) : List Char :=
  let exponent := place - 1
  let shown := Decimal.numeral exponent.natAbs
  let fraction := digits.drop 1
  digits.take 1 ++ (if fraction.isEmpty then [] else '.' :: fraction) ++ 'e' ::
    (if exponent < 0 then '-' else '+') ::
    (List.replicate (layout.exponentDigits - shown.length) '0' ++ shown)

/-- The text of a magnitude. -/
def showMagnitude (rank : Fin Binary64.rankBound) : List Char :=
  let (digits, place) := digitsAndPlace
    (if rank.val = 0 then ⟨false, 0, 0⟩ else Decimal.shortest rank)
  if layout.positional.1 ≤ place && place ≤ layout.positional.2 then positional digits place
  else scientific layout digits place

/-- The text of a weight. -/
def toChars : Weight → List Char
  | .finite negative rank => (if negative then ['-'] else []) ++ showMagnitude rank
  | .infinite negative => (if negative then ['-'] else []) ++ ['i', 'n', 'f']
  | .nan => ['n', 'a', 'n']

/-- The text of a weight. -/
def text (w : Weight) : String :=
  String.ofList w.toChars

/-- A weight as it is given to a grammar. -/
inductive Given where
  | number (value : Weight)
  | integer (value : Int)
  | text (value : String)
deriving DecidableEq, Repr

/-- Why what was given is no weight. -/
inductive Fault where
  | notANumber (text : String)
  | tooLarge
deriving DecidableEq, Repr

def Fault.message : Fault → String
  | .notANumber text => "could not convert string to float: " ++ Text.quoted text
  | .tooLarge => "int too large to convert to float"

/-- The weight that was given. -/
def Given.read : Given → Except Fault Weight
  | .number value => .ok value
  | .integer value => match Binary64.ofInt? value with
    | some w => .ok w
    | none => .error .tooLarge
  | .text value => match Decimal.readBinary64? value.toList with
    | some w => .ok w
    | none => .error (.notANumber value)

end Weight

end Earley
