import Earley.Decimal.Reading
import Earley.Json

namespace Earley.Json

open Earley.Text

/-- What is wrong with a text. -/
inductive Cause where
  | expectingValue
  | expectingName
  | expectingColon
  | expectingComma
  | openString
  | controlCharacter
  | badEscape
  | badUnit
  | extraData
  | longInteger (digits : Nat)
deriving DecidableEq, Repr

/-- A cause, and the count of characters from the faulty place to the end of the text. -/
structure Fault where
  cause : Cause
  left : Nat
deriving DecidableEq, Repr

/-- Blanks between the parts of a value. -/
def isSpace (c : Char) : Bool :=
  c == ' ' || c == '\t' || c == '\n' || c == '\r'

def skipSpace (cs : List Char) : List Char :=
  cs.dropWhile isSpace

/-- The value of a hexadecimal digit of either case. -/
def hexValue? (c : Char) : Option Nat :=
  let n := c.toNat
  if 48 ≤ n && n ≤ 57 then some (n - 48)
  else if 97 ≤ n && n ≤ 102 then some (n - 87)
  else if 65 ≤ n && n ≤ 70 then some (n - 55)
  else none

/-- Four hexadecimal digits as one unit. -/
def unit? (a b c d : Char) : Option Nat :=
  match hexValue? a, hexValue? b, hexValue? c, hexValue? d with
  | some w, some x, some y, some z => some (((w * 16 + x) * 16 + y) * 16 + z)
  | _, _, _, _ => none

/-- Code points, where two halves that make a pair are one. -/
def joinPairs : List Nat → List Nat
  | high :: low :: rest =>
    if isHighHalf high && isLowHalf low then
      (0x10000 + (high - 0xD800) * 0x400 + (low - 0xDC00)) :: joinPairs rest
    else high :: joinPairs (low :: rest)
  | few => few

/-- The characters of escapes that have one letter. -/
def simpleEscape? : Char → Option Char
  | '"' => some '"'
  | '\\' => some '\\'
  | '/' => some '/'
  | 'b' => some '\x08'
  | 'f' => some '\x0c'
  | 'n' => some '\n'
  | 'r' => some '\r'
  | 't' => some '\t'
  | _ => none

/-- The code points and units of a text up to its closing mark, and what follows; `whole` is the
count of characters from the opening mark on. -/
def readUnits (whole : Nat) : List Char → Except Fault (List Nat × List Char)
  | [] => .error ⟨.openString, whole⟩
  | '"' :: rest => .ok ([], rest)
  | ['\\'] => .error ⟨.openString, whole⟩
  | '\\' :: 'u' :: a :: b :: c :: d :: rest =>
    if rest.isEmpty then .error ⟨.badUnit, 5⟩
    else match unit? a b c d with
      | none => .error ⟨.badUnit, 5 + rest.length⟩
      | some n => (readUnits whole rest).map fun (ns, more) => (n :: ns, more)
  | '\\' :: 'u' :: rest => .error ⟨.badUnit, 1 + rest.length⟩
  | '\\' :: c :: rest =>
    match simpleEscape? c with
    | some e => (readUnits whole rest).map fun (ns, more) => (e.toNat :: ns, more)
    | none => .error ⟨.badEscape, 2 + rest.length⟩
  | c :: rest =>
    if c.toNat < 0x20 then .error ⟨.controlCharacter, 1 + rest.length⟩
    else (readUnits whole rest).map fun (ns, more) => (c.toNat :: ns, more)

/-- The code points of a text up to its closing mark, and what follows. -/
def readString (whole : Nat) (cs : List Char) : Except Fault (List Nat × List Char) :=
  (readUnits whole cs).map fun (ns, more) => (joinPairs ns, more)

def isAsciiDigit (c : Char) : Bool := '0' ≤ c && c ≤ '9'

/-- The fraction at the front of a text: a point with at least one digit. -/
def takeFraction : List Char → List Char × List Char
  | '.' :: d :: rest =>
    if isAsciiDigit d then ((d :: rest).takeWhile isAsciiDigit, (d :: rest).dropWhile isAsciiDigit)
    else ([], '.' :: d :: rest)
  | cs => ([], cs)

/-- The exponent at the front of a text, if it has at least one digit. -/
def takeExponent? : List Char → Option (Int × List Char)
  | mark :: rest =>
    if mark == 'e' || mark == 'E' then
      let (negative, body) := Decimal.takeSign rest
      let digits := body.takeWhile isAsciiDigit
      if digits.isEmpty then none
      else
        let size : Int := Decimal.ofDigits digits
        some (if negative then -size else size, body.dropWhile isAsciiDigit)
    else none
  | [] => none

/-- A number; `negative` tells of a minus sign before the digits, and `left` is the count of
characters from the number's front on. -/
def readNumber (left : Nat) (negative : Bool) (cs : List Char) :
    Except Fault (Json × List Char) :=
  match cs with
  | [] => .error ⟨.expectingValue, left⟩
  | d :: rest =>
    if !isAsciiDigit d then .error ⟨.expectingValue, left⟩
    else
      let digits := if d == '0' then [d] else d :: rest.takeWhile isAsciiDigit
      let tail := if d == '0' then rest else rest.dropWhile isAsciiDigit
      let (fraction, afterFraction) := takeFraction tail
      match takeExponent? afterFraction with
      | some (exponent, more) =>
        .ok (.float (Decimal.Written.toBinary64
          ⟨negative, Decimal.ofDigits (digits ++ fraction), exponent - fraction.length⟩), more)
      | none =>
        if fraction.isEmpty then
          if Decimal.maxIntDigits < digits.length then .error ⟨.longInteger digits.length, left⟩
          else
            let size : Int := Decimal.ofDigits digits
            .ok (.int (if negative then -size else size), tail)
        else
          .ok (.float (Decimal.Written.toBinary64
            ⟨negative, Decimal.ofDigits (digits ++ fraction), -(fraction.length : Int)⟩),
            afterFraction)

mutual

/-- A value at the front of a text, and what follows it. Each call spends one unit of `fuel` and at
least one character, so the length of the text is enough. -/
def readValue (fuel : Nat) (cs : List Char) : Except Fault (Json × List Char) :=
  match fuel with
  | 0 => .error ⟨.expectingValue, cs.length⟩
  | fuel + 1 =>
    match cs with
    | '"' :: rest =>
      (readString cs.length rest).map fun (codes, more) => (.ofCodes codes, more)
    | '{' :: rest =>
      match skipSpace rest with
      | '}' :: more => .ok (.object [], more)
      | body => (readMembers fuel body).map fun (members, more) => (.ofMembers members, more)
    | '[' :: rest =>
      match skipSpace rest with
      | ']' :: more => .ok (.array [], more)
      | body => (readElements fuel body).map fun (elements, more) => (.array elements, more)
    | 'n' :: 'u' :: 'l' :: 'l' :: rest => .ok (.null, rest)
    | 't' :: 'r' :: 'u' :: 'e' :: rest => .ok (.bool true, rest)
    | 'f' :: 'a' :: 'l' :: 's' :: 'e' :: rest => .ok (.bool false, rest)
    | 'N' :: 'a' :: 'N' :: rest => .ok (.float .nan, rest)
    | 'I' :: 'n' :: 'f' :: 'i' :: 'n' :: 'i' :: 't' :: 'y' :: rest =>
      .ok (.float (.infinite false), rest)
    | '-' :: 'I' :: 'n' :: 'f' :: 'i' :: 'n' :: 'i' :: 't' :: 'y' :: rest =>
      .ok (.float (.infinite true), rest)
    | '-' :: rest => readNumber cs.length true rest
    | _ => readNumber cs.length false cs

/-- The elements of an array, of which there is at least one, and what follows its bracket. -/
def readElements (fuel : Nat) (cs : List Char) : Except Fault (List Json × List Char) :=
  match fuel with
  | 0 => .error ⟨.expectingValue, cs.length⟩
  | fuel + 1 => do
    let (x, rest) ← readValue fuel cs
    match skipSpace rest with
    | ']' :: more => .ok ([x], more)
    | ',' :: more =>
      let (xs, more) ← readElements fuel (skipSpace more)
      .ok (x :: xs, more)
    | other => .error ⟨.expectingComma, other.length⟩

/-- The members of an object, of which there is at least one, and what follows its brace. -/
def readMembers (fuel : Nat) (cs : List Char) :
    Except Fault (List (AnyText × Json) × List Char) :=
  match fuel with
  | 0 => .error ⟨.expectingName, cs.length⟩
  | fuel + 1 =>
    match cs with
    | '"' :: rest => do
      let (codes, afterName) ← readString cs.length rest
      let name := AnyText.ofCodes codes
      match skipSpace afterName with
      | ':' :: body =>
        let (x, rest) ← readValue fuel (skipSpace body)
        match skipSpace rest with
        | '}' :: more => .ok ([(name, x)], more)
        | ',' :: more =>
          let (members, more) ← readMembers fuel (skipSpace more)
          .ok ((name, x) :: members, more)
        | other => .error ⟨.expectingComma, other.length⟩
      | other => .error ⟨.expectingColon, other.length⟩
    | _ => .error ⟨.expectingName, cs.length⟩

end

/-- The value that a whole text is, between blanks. Beyond the standard, the names of the infinities and
of the value that is no number are taken. -/
def read (text : List Char) : Except Fault Json := do
  let body := skipSpace text
  let (value, rest) ← readValue (2 * body.length + 1) body
  match skipSpace rest with
  | [] => .ok value
  | left => .error ⟨.extraData, left.length⟩

def Cause.message : Cause → String
  | .expectingValue => "Expecting value"
  | .expectingName => "Expecting property name enclosed in double quotes"
  | .expectingColon => "Expecting ':' delimiter"
  | .expectingComma => "Expecting ',' delimiter"
  | .openString => "Unterminated string starting at"
  | .controlCharacter => "Invalid control character at"
  | .badEscape => "Invalid \\escape"
  | .badUnit => "Invalid \\uXXXX escape"
  | .extraData => "Extra data"
  | .longInteger digits =>
    "Exceeds the limit (" ++ Decimal.integerText Decimal.maxIntDigits ++
      " digits) for integer string conversion: value has " ++ Decimal.integerText digits ++
      " digits; use sys.set_int_max_str_digits() to increase the limit"

/-- The cause of a fault and its line, column and offset in the text. -/
def Fault.describe (text : List Char) (f : Fault) : String :=
  match f.cause with
  | .longInteger _ => f.cause.message
  | _ =>
    let offset := text.length - f.left
    let before := text.take offset
    let column := (before.reverse.takeWhile (· != '\n')).length + 1
    f.cause.message ++ ": line " ++ Decimal.integerText (before.count '\n' + 1) ++ " column " ++
      Decimal.integerText column ++ " (char " ++ Decimal.integerText offset ++ ")"

end Earley.Json
