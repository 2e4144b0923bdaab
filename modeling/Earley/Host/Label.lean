import Earley.Host.Letters
import Earley.Text.Composed
import Earley.Text.Direction
import Earley.Text.Joining
import Earley.Text.Quoted
import Earley.Text.Script

namespace Earley.Host

open Earley.Text

/-- What is wrong with a label. Positions count from one. -/
inductive LabelFault where
  | empty
  | notComposed
  | innerHyphens
  | outerHyphen
  | leadingMark
  | badCode (n position : Nat) (label : List Nat)
  | badJoiner (n position : Nat) (label : List Nat)
  | badContext (n position : Nat) (label : List Nat)
  | badStart (label : List Nat)
  | notFromRight (position : Nat)
  | mixedDigits
  | notFromLeft (position : Nat)
  | badEnd
  | noNumbers
  | endsHyphen
  | badNumbers
deriving DecidableEq, Repr

namespace LabelFault

/-- A code point by its number. -/
def codeName (n : Nat) : String :=
  "U+" ++ String.ofList ((Decimal.hex (if n < 0x10000 then 4 else if n < 0x100000 then 5 else 6)
    n).map Char.toUpper)

def shown (label : List Nat) : String := String.ofList (quoteCodes label)

def message : LabelFault → String
  | .empty => "Empty Label"
  | .notComposed => "Label must be in Normalization Form C"
  | .innerHyphens => "Label has disallowed hyphens in 3rd and 4th position"
  | .outerHyphen => "Label must not start or end with a hyphen"
  | .leadingMark => "Label begins with an illegal combining character"
  | .badCode n position label =>
    "Codepoint " ++ codeName n ++ " at position " ++ Decimal.integerText position ++ " of " ++
      shown label ++ " not allowed"
  | .badJoiner n position label =>
    "Joiner " ++ codeName n ++ " not allowed at position " ++ Decimal.integerText position ++
      " in " ++ shown label
  | .badContext n position label =>
    "Codepoint " ++ codeName n ++ " not allowed at position " ++ Decimal.integerText position ++
      " in " ++ shown label
  | .badStart label =>
    "First codepoint in label " ++ shown label ++ " must be directionality L, R or AL"
  | .notFromRight position =>
    "Invalid direction for codepoint at position " ++ Decimal.integerText position ++
      " in a right-to-left label"
  | .mixedDigits => "Can not mix numeral types in a right-to-left label"
  | .notFromLeft position =>
    "Invalid direction for codepoint at position " ++ Decimal.integerText position ++
      " in a left-to-right label"
  | .badEnd => "Label ends with illegal codepoint directionality"
  | .noNumbers => "Malformed A-label, no Punycode eligible content found"
  | .endsHyphen => "A-label must not end with a hyphen"
  | .badNumbers => "Invalid A-label"

end LabelFault

namespace Label

def hyphen : Nat := 0x2D

/-- The joiner that shows a letter as if it had a neighbour. -/
def joiner : Nat := 0x200D

/-- The joiner that keeps two letters apart. -/
def nonJoiner : Nat := 0x200C

/-- Whether the letter next to a non-joiner, behind any marks, joins to its side. -/
def joinsAcross (oneSide : Ranges) (codes : List Nat) : Bool :=
  match codes.dropWhile isNonspacingMark with
  | n :: _ => joinBothSides.contains n || oneSide.contains n
  | [] => false

/-- Whether a joiner may stand between code points; those before it are given from the last one on. -/
def allowsJoiner (n : Nat) (before behind : List Nat) : Bool :=
  (before.head?.map combiningClass == some joinerClass) ||
    (n == nonJoiner && joinsAcross joinBehind before && joinsAcross joinBefore behind)

def isArabicDigit (n : Nat) : Bool := 0x660 ≤ n && n ≤ 0x669

def isPersianDigit (n : Nat) : Bool := 0x6F0 ≤ n && n ≤ 0x6F9

/-- Whether a code point may stand where it does, if it is one of those for which this depends on
the others: a middle dot between two small l, signs of Greek and Hebrew beside their letters, a
middle dot of Katakana in a text of Japan, and digits of one kind only. -/
def allowsContext? (label before behind : List Nat) (n : Nat) : Option Bool :=
  if n == 0xB7 then some (before.head? == some 0x6C && behind.head? == some 0x6C)
  else if n == 0x375 then some (behind.head?.any Script.greek.contains)
  else if n == 0x5F3 || n == 0x5F4 then some (before.head?.any Script.hebrew.contains)
  else if n == 0x30FB then
    some (label.any fun m => m != 0x30FB &&
      (Script.hiragana.contains m || Script.katakana.contains m || Script.han.contains m))
  else if isArabicDigit n then some (!label.any isPersianDigit)
  else if isPersianDigit n then some (!label.any isArabicDigit)
  else none

/-- Checks all code points of a label; those before are given from the last one on. -/
def checkCodes (label before : List Nat) : List Nat → Except LabelFault Unit
  | [] => .ok ()
  | n :: behind =>
    let position := before.length + 1
    if isLetter n then checkCodes label (n :: before) behind
    else if n == joiner || n == nonJoiner then
      if allowsJoiner n before behind then checkCodes label (n :: before) behind
      else .error (.badJoiner n position label)
    else match allowsContext? label before behind n with
      | some true => checkCodes label (n :: before) behind
      | some false => .error (.badContext n position label)
      | none => .error (.badCode n position label)

/-- Directions that a label from right to left has besides that of its digits. -/
def isFromRight (d : Direction) : Bool := d != .left

/-- Directions that a label from left to right has. -/
def isFromLeft (d : Direction) : Bool := !([.right, .arabicRight, .arabicNumber].contains d)

/-- Checks the directions in a label from right to left; `digits` is the kind of digits seen. -/
def checkFromRight (digits : Option Direction) (position : Nat) :
    List Direction → Except LabelFault Unit
  | [] => .ok ()
  | d :: rest =>
    if !isFromRight d then .error (.notFromRight position)
    else if d == .number || d == .arabicNumber then
      if digits.any (· != d) then .error .mixedDigits
      else checkFromRight (some d) (position + 1) rest
    else checkFromRight digits (position + 1) rest

/-- Checks the directions in a label from left to right. -/
def checkFromLeft (position : Nat) : List Direction → Except LabelFault Unit
  | [] => .ok ()
  | d :: rest =>
    if isFromLeft d then checkFromLeft (position + 1) rest else .error (.notFromLeft position)

/-- Whether the last direction that is not that of a mark may be the last one. -/
def endsWell (allowed : List Direction) (directions : List Direction) : Bool :=
  (directions.reverse.find? (· != .mark)).any allowed.contains

/-- Checks that a label can be read in one direction. Only labels with a part from right to left
need that. -/
def checkDirection (label : List Nat) : Except LabelFault Unit :=
  let directions := label.map Direction.ofCode
  if directions.all isFromLeft then .ok ()
  else match directions.head? with
    | some .right | some .arabicRight => do
      checkFromRight none 1 directions
      if endsWell [.right, .arabicRight, .number, .arabicNumber] directions then .ok ()
      else .error .badEnd
    | some .left => do
      checkFromLeft 1 directions
      if endsWell [.left, .number] directions then .ok () else .error .badEnd
    | _ => .error (.badStart label)

/-- Checks a label, which is a part between the points of a host's name. It is composed, has no hyphens
at its ends or in its third and fourth place, does not begin with a mark, has only code points that are
allowed where they stand, and can be read in one direction. -/
def check (label : List Nat) : Except LabelFault Unit :=
  if label.isEmpty then .error .empty
  else if !Composed.isComposed label then .error .notComposed
  else if (label.drop 2).take 2 == [hyphen, hyphen] then .error .innerHyphens
  else if label.head? == some hyphen || label.getLast? == some hyphen then .error .outerHyphen
  else if label.head?.any isMark then .error .leadingMark
  else do
    checkCodes label [] label
    checkDirection label

end Label

end Earley.Host
