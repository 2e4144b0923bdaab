import Earley.Json
import Earley.Weight

namespace Earley.Json

open Earley.Text

/-- The four hexadecimal digits of a UTF-16 unit after its mark. -/
def unitEscape (unit : Nat) : List Char :=
  '\\' :: 'u' :: Decimal.hex 4 unit

/-- A character beyond the first 65536 takes two units. -/
def unicodeEscape (c : Char) : List Char :=
  let n := c.toNat
  if n < 0x10000 then unitEscape n
  else unitEscape (0xD800 + (n - 0x10000) / 0x400) ++ unitEscape (0xDC00 + (n - 0x10000) % 0x400)

/-- One character of a text; `ascii` asks for escapes in place of all but printable ASCII. -/
def escape (ascii : Bool) (c : Char) : List Char :=
  if c == '"' || c == '\\' then ['\\', c]
  else if c == '\n' then ['\\', 'n']
  else if c == '\r' then ['\\', 'r']
  else if c == '\t' then ['\\', 't']
  else if c == '\x08' then ['\\', 'b']
  else if c == '\x0c' then ['\\', 'f']
  else if c.toNat < 0x20 || (ascii && 0x7E < c.toNat) then unicodeEscape c
  else [c]

/-- A text between quotation marks. -/
def quote (ascii : Bool) (s : String) : List Char :=
  '"' :: s.toList.flatMap (escape ascii) ++ ['"']

/-- One code point of a text. A half of a pair is always escaped. -/
def escapeCode (ascii : Bool) (n : Nat) : List Char :=
  if isHalf n then unitEscape n else escape ascii (Char.ofNat n)

/-- A text with halves of pairs between quotation marks. -/
def quoteCodes (ascii : Bool) (codes : List Nat) : List Char :=
  '"' :: codes.flatMap (escapeCode ascii) ++ ['"']

def quoteText (ascii : Bool) : AnyText → List Char
  | .whole s => quote ascii s
  | .halved h => quoteCodes ascii h.codes

/-- A number that is no integer. Infinities and the value that is no number have names. -/
def floatChars : Binary64 → List Char
  | .finite negative rank => Weight.toChars (.finite negative rank)
  | .infinite negative => (if negative then ['-'] else []) ++ "Infinity".toList
  | .nan => "NaN".toList

/-- A value without parts. -/
def scalarChars (ascii : Bool) : Json → List Char
  | .bool true => "true".toList
  | .bool false => "false".toList
  | .int n => Decimal.integer n
  | .float x => floatChars x
  | .string s => quote ascii s
  | .halved h => quoteCodes ascii h.codes
  | _ => "null".toList

mutual

/-- The value on one line, with a space after each comma and colon. -/
def lineChars (ascii : Bool) : Json → List Char
  | .array [] => ['[', ']']
  | .array (x :: xs) => '[' :: lineChars ascii x ++ lineElements ascii xs ++ [']']
  | .object [] => ['{', '}']
  | .object ((name, x) :: rest) =>
    '{' :: quote ascii name ++ ':' :: ' ' :: lineChars ascii x ++ lineMembers ascii rest ++ ['}']
  | .halvedObject [] => ['{', '}']
  | .halvedObject ((name, x) :: rest) =>
    '{' :: quoteText ascii name ++ ':' :: ' ' :: lineChars ascii x ++ lineHalved ascii rest ++ ['}']
  | scalar => scalarChars ascii scalar

def lineElements (ascii : Bool) : List Json → List Char
  | [] => []
  | x :: rest => ',' :: ' ' :: lineChars ascii x ++ lineElements ascii rest

def lineMembers (ascii : Bool) : List (String × Json) → List Char
  | [] => []
  | (name, x) :: rest =>
    ',' :: ' ' :: quote ascii name ++ ':' :: ' ' :: lineChars ascii x ++ lineMembers ascii rest

def lineHalved (ascii : Bool) : List (AnyText × Json) → List Char
  | [] => []
  | (name, x) :: rest =>
    ',' :: ' ' :: quoteText ascii name ++ ':' :: ' ' :: lineChars ascii x ++ lineHalved ascii rest

end

/-- The value on one line of ASCII. -/
def toLine (j : Json) : String :=
  String.ofList (lineChars true j)

/-- A new line at a depth; each level is two spaces deep. -/
def newLine (depth : Nat) : List Char :=
  '\n' :: List.replicate (2 * depth) ' '

mutual

/-- The value with each element and member on a line of its own. -/
def blockChars (depth : Nat) : Json → List Char
  | .array [] => ['[', ']']
  | .array (x :: xs) =>
    '[' :: newLine (depth + 1) ++ blockChars (depth + 1) x ++ blockElements (depth + 1) xs ++
      newLine depth ++ [']']
  | .object [] => ['{', '}']
  | .object ((name, x) :: rest) =>
    '{' :: newLine (depth + 1) ++ quote false name ++ ':' :: ' ' :: blockChars (depth + 1) x ++
      blockMembers (depth + 1) rest ++ newLine depth ++ ['}']
  | .halvedObject [] => ['{', '}']
  | .halvedObject ((name, x) :: rest) =>
    '{' :: newLine (depth + 1) ++ quoteText false name ++ ':' :: ' ' :: blockChars (depth + 1) x ++
      blockHalved (depth + 1) rest ++ newLine depth ++ ['}']
  | scalar => scalarChars false scalar

def blockElements (depth : Nat) : List Json → List Char
  | [] => []
  | x :: rest => ',' :: newLine depth ++ blockChars depth x ++ blockElements depth rest

def blockMembers (depth : Nat) : List (String × Json) → List Char
  | [] => []
  | (name, x) :: rest =>
    ',' :: newLine depth ++ quote false name ++ ':' :: ' ' :: blockChars depth x ++
      blockMembers depth rest

def blockHalved (depth : Nat) : List (AnyText × Json) → List Char
  | [] => []
  | (name, x) :: rest =>
    ',' :: newLine depth ++ quoteText false name ++ ':' :: ' ' :: blockChars depth x ++
      blockHalved depth rest

end

/-- The value over several lines. -/
def toBlock (j : Json) : String :=
  String.ofList (blockChars 0 j)

/-- The code points of a text between quotation marks, halves of pairs among them. -/
def sentText : AnyText → List Nat
  | .whole s => (quote false s).map Char.toNat
  | .halved h =>
    let shown := fun n =>
      if isHalf n then [n] else (escape false (Char.ofNat n)).map Char.toNat
    '"'.toNat :: h.codes.flatMap shown ++ ['"'.toNat]

mutual

/-- The code points of the value as it is sent, without blanks and with all characters as they are. -/
def sent : Json → List Nat
  | .array [] => ['['.toNat, ']'.toNat]
  | .array (x :: xs) => '['.toNat :: sent x ++ sentElements xs ++ [']'.toNat]
  | .object [] | .halvedObject [] => ['{'.toNat, '}'.toNat]
  | .object ((name, x) :: rest) =>
    '{'.toNat :: sentText name ++ ':'.toNat :: sent x ++ sentMembers rest ++ ['}'.toNat]
  | .halvedObject ((name, x) :: rest) =>
    '{'.toNat :: sentText name ++ ':'.toNat :: sent x ++ sentHalved rest ++ ['}'.toNat]
  | .halved h => sentText (.halved h)
  | scalar => (scalarChars false scalar).map Char.toNat

def sentElements : List Json → List Nat
  | [] => []
  | x :: rest => ','.toNat :: sent x ++ sentElements rest

def sentMembers : List (String × Json) → List Nat
  | [] => []
  | (name, x) :: rest => ','.toNat :: sentText name ++ ':'.toNat :: sent x ++ sentMembers rest

def sentHalved : List (AnyText × Json) → List Nat
  | [] => []
  | (name, x) :: rest => ','.toNat :: sentText name ++ ':'.toNat :: sent x ++ sentHalved rest

end

end Earley.Json
