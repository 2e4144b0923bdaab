import Earley.Host.Label
import Earley.Host.Punycode
import Earley.Text.Blank

namespace Earley.Host

open Earley.Text

/-- What is wrong with a name. -/
inductive Fault where
  | label (fault : LabelFault)
  | noLabels
  | longLabel
  | longName
deriving DecidableEq, Repr

/-- What labels in ASCII begin with that stand for others. -/
def sign : List Char := "xn--".toList

/-- Points between labels, in all scripts. -/
def isPoint (c : Char) : Bool :=
  c == '.' || c == '\u3002' || c == '\uFF0E' || c == '\uFF61'

/-- The labels of a name. A point at the end has no label behind it. -/
def labels (name : List Char) : List (List Char) :=
  let all := pieces isPoint name
  if all.getLast? == some [] then all.dropLast else all

/-- Checks a label in ASCII, and the label that it stands for. -/
def checkPlain (label : List Char) : Except LabelFault Unit :=
  if sign.isPrefixOf label then
    let numbers := label.drop sign.length
    if numbers.isEmpty then .error .noNumbers
    else if numbers.getLast? == some '-' then .error .endsHyphen
    else match Punycode.decode? numbers with
      | some codes => Label.check codes
      | none => .error .badNumbers
  else Label.check (label.map Char.toNat)

/-- The longest label. -/
def maxLabel : Nat := 63

/-- The longest name, without a point at its end. -/
def maxName : Nat := 253

/-- A label in ASCII. No label becomes shorter. -/
def encodeLabel (label : List Char) : Except Fault (List Char) := do
  let codes := label.map Char.toNat
  if maxLabel < codes.length then .error .longLabel
  else if codes.all (· < 0x80) then do
    (checkPlain label).mapError .label
    .ok label
  else do
    (Label.check codes).mapError .label
    let plain := sign ++ Punycode.encode codes
    if maxLabel < plain.length then .error .longLabel else .ok plain

/-- A name in ASCII. A label with other characters is written with `xn--` in front of its code points in
ASCII. -/
def encode (name : List Char) : Except Fault (List Char) := do
  let all := labels name
  if all.isEmpty then .error .noLabels
  else
    let plain := joinWith ['.'] (← all.mapM encodeLabel)
    if maxName < plain.length then .error .longName
    else .ok (if name.getLast?.any isPoint then plain ++ ['.'] else plain)

/-- Checks a name in ASCII, and the names that its labels stand for, if it begins with such a label. -/
def checkSigned (name : List Char) : Except LabelFault Unit :=
  if sign.isPrefixOf name then (labels name).forM checkPlain else .ok ()

end Earley.Host
