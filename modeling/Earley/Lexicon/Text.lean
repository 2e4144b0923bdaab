import Earley.Decimal.Reading
import Earley.Lexicon
import Earley.Text.Quoted
import Earley.Text.Source
import Earley.Text.Word

namespace Earley.Lexicon

open Earley.Text

/-- What is wrong with a line. -/
inductive LineError where
  | malformed
  | badPair (text : String)
  | badNumber (fault : Decimal.IntFault)
deriving DecidableEq, Repr

/-- Longer quotations in a fault's text are cut off here. -/
def maxQuotation : Nat := 200

def LineError.message : LineError → String
  | .malformed => "Expected: word : POS [key=value ...]"
  | .badPair text => "Expected key=value, got: " ++ text
  | .badNumber (.malformed text) =>
    "invalid literal for int() with base 10: " ++
      String.ofList ((quote text.toList).take maxQuotation)
  | .badNumber (.tooLong digits) =>
    "Exceeds the limit (" ++ Decimal.integerText Decimal.maxIntDigits ++
      " digits) for integer string conversion: value has " ++ Decimal.integerText digits ++
      " digits; use sys.set_int_max_str_digits() to increase the limit"

/-- The places where a colon inside the run of characters `run` may end the word; `before` is the
part of the run that comes first, in reverse. The last place is given first. -/
def innerColons (tail : List Char) (before : List Char) :
    List Char → List (List Char × List Char)
  | [] => []
  | c :: run =>
    innerColons tail (c :: before) run ++
      if c == ':' && !before.isEmpty then [(before.reverse, run ++ tail)] else []

/-- The ways to take a word and a colon off the front of a line, longest word first. Blanks may
stand between the two. -/
def wordSplits (line : List Char) : List (List Char × List Char) :=
  let run := line.takeWhile (!isBlank ·)
  let tail := line.dropWhile (!isBlank ·)
  (match run, trimLeft tail with
    | _ :: _, ':' :: after => [(run, after)]
    | _, _ => []) ++ innerColons tail [] run

/-- Whether a text is on one line, but for a line feed at its very end. -/
def isOneLine : List Char → Bool
  | [] => true
  | ['\n'] => true
  | c :: rest => c != '\n' && isOneLine rest

/-- Word, part of speech and the rest of a line. -/
def splitLine? (line : List Char) : Option (List Char × List Char × List Char) :=
  (wordSplits line).findSome? fun (word, after) =>
    let body := trimLeft after
    let pos := body.takeWhile isWordChar
    let rest := body.dropWhile isWordChar
    if !pos.isEmpty && isOneLine rest then some (word, pos, rest) else none

/-- A name and a value around an equals sign, both nonempty. -/
def splitPair? (item : List Char) : Option (List Char × List Char) :=
  let name := item.takeWhile isWordChar
  match item.dropWhile isWordChar with
  | '=' :: value => if name.isEmpty || value.isEmpty then none else some (name, value)
  | _ => none

/-- The names of features whose values are numbers when they are written in digits. -/
def numericNames : List String := ["person"]

/-- The value of a feature. -/
def readValue (name value : String) : Except Decimal.IntFault FeatureValue :=
  if numericNames.contains name && !value.isEmpty && value.toList.all isDigit then
    (Decimal.readInt value).map .number
  else .ok (.text value)

/-- Features and base form from the items of a line, read on top of what is there. -/
def readItems (features : Features) (baseForm? : Option String) :
    List (List Char) → Except LineError (Features × Option String)
  | [] => .ok (features, baseForm?)
  | item :: rest =>
    match splitPair? item with
    | none => .error (.badPair (String.ofList item))
    | some (name, value) =>
      let name := String.ofList name
      let value := String.ofList value
      if name == "lemma" then readItems features (some value) rest
      else match readValue name value with
        | .error fault => .error (.badNumber fault)
        | .ok v => readItems (features.set name v) baseForm? rest

/-- Reads one line into a lexicon, which stays as it is if the line has a fault. -/
def readLine (lex : Lexicon) (line : List Char) : Lexicon × Option LineError :=
  match splitLine? line with
  | none => (lex, some .malformed)
  | some (word, pos, rest) =>
    match readItems [] none (items rest) with
    | .error fault => (lex, some fault)
    | .ok (features, baseForm?) =>
      (lex.add (String.ofList word) (String.ofList pos) features baseForm?, none)

/-- The readings of a text up to its first fault, and that fault. -/
def readAll (text : String) : Lexicon × Option (LineFault LineError) :=
  readText readLine empty text

/-- The lexicon that a text describes. A line `dogs : N number=plural lemma=dog` is one reading: the
word, its part of speech, and features, among which `lemma` sets the base form and `person` takes
numbers. -/
def ofText (text : String) : Except (LineFault LineError) Lexicon :=
  match readAll text with
  | (lex, none) => .ok lex
  | (_, some fault) => .error fault

def valueText : FeatureValue → String
  | .text value => value
  | .number value => Decimal.integerText value

/-- One reading as a line. The base form is written only if the word does not give it. -/
def readingLine (r : Reading) : String :=
  let baseForm := if r.baseForm == lower r.word then [] else ["lemma=" ++ r.baseForm]
  " ".intercalate <|
    (r.word ++ " : " ++ r.pos) :: r.features.map (fun (name, value) => name ++ "=" ++ valueText value)
      ++ baseForm

/-- The text of a lexicon. -/
def toText (lex : Lexicon) : String :=
  "\n".intercalate (lex.readings.map readingLine)

end Earley.Lexicon
