import Earley.Json
import Earley.Text.Column
import Earley.Weight

namespace Earley.Json

open Earley.Text

/-- The name of a value's form, as messages have it. -/
def formName : Json → String
  | .null => "NoneType"
  | .bool _ => "bool"
  | .int _ => "int"
  | .float _ => "float"
  | .string _ | .halved _ => "str"
  | .array _ => "list"
  | .object _ | .halvedObject _ => "dict"

/-- A value without parts. -/
def literalScalar : Json → List Char
  | .bool true => "True".toList
  | .bool false => "False".toList
  | .int n => Decimal.integer n
  | .float x => Weight.toChars x
  | .string s => quote s.toList
  | .halved h => quoteCodes h.codes
  | _ => "None".toList

/-- A name inside an object. -/
def literalName : AnyText → List Char
  | .whole s => quote s.toList
  | .halved h => quoteCodes h.codes

mutual

/-- A value inside a list or an object, in a notation of its own, in which texts are quoted. -/
def literal : Json → List Char
  | .array [] => ['[', ']']
  | .array (x :: xs) => '[' :: literal x ++ literalElements xs ++ [']']
  | .object [] => ['{', '}']
  | .object ((name, x) :: rest) =>
    '{' :: quote name.toList ++ ':' :: ' ' :: literal x ++ literalMembers rest ++ ['}']
  | .halvedObject [] => ['{', '}']
  | .halvedObject ((name, x) :: rest) =>
    '{' :: literalName name ++ ':' :: ' ' :: literal x ++ literalHalved rest ++ ['}']
  | scalar => literalScalar scalar

def literalElements : List Json → List Char
  | [] => []
  | x :: rest => ',' :: ' ' :: literal x ++ literalElements rest

def literalMembers : List (String × Json) → List Char
  | [] => []
  | (name, x) :: rest =>
    ',' :: ' ' :: quote name.toList ++ ':' :: ' ' :: literal x ++ literalMembers rest

def literalHalved : List (AnyText × Json) → List Char
  | [] => []
  | (name, x) :: rest =>
    ',' :: ' ' :: literalName name ++ ':' :: ' ' :: literal x ++ literalHalved rest

end

/-- A value inside a line. -/
def plain : Json → String
  | .string s => s
  | j => String.ofList (literal j)

/-- A value in a column: texts stand at its left and numbers at its right, among them the truth
values as zero and one. Nothing else can stand in a column. -/
def inColumn? (width : Nat) : Json → Option String
  | .string s => some (padRight width s)
  | .int n => some (padLeft width (Decimal.integerText n))
  | .float x => some (padLeft width (Weight.text x))
  | .bool b => some (padLeft width (if b then "1" else "0"))
  | _ => none

end Earley.Json
