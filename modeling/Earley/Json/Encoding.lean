import Earley.Json.Reader
import Earley.Text.Bytes
import Earley.Text.Utf8

namespace Earley.Json

open Earley.Text

/-- How characters are put into bytes; at the big end, the high byte comes first. -/
inductive Encoding where
  | utf8
  | utf16 (bigEnd : Bool)
  | utf32 (bigEnd : Bool)
deriving DecidableEq, Repr

namespace Encoding

def name : Encoding → String
  | .utf8 => "utf-8"
  | .utf16 bigEnd => if bigEnd then "utf-16-be" else "utf-16-le"
  | .utf32 bigEnd => if bigEnd then "utf-32-be" else "utf-32-le"

/-- The encoding that the first bytes tell of. JSON begins with ASCII, so that the zeros among its first
four bytes tell how many bytes make up a character, and in which order they come. -/
def ofBytes : List Nat → Encoding
  | a :: b :: c :: d :: _ =>
    if a = 0 then (if b = 0 then .utf32 true else .utf16 true)
    else if b = 0 then (if c = 0 && d = 0 then .utf32 false else .utf16 false)
    else .utf8
  | [a, b] => if a = 0 then .utf16 true else if b = 0 then .utf16 false else .utf8
  | _ => .utf8

/-- The number that bytes make up. -/
def join (bigEnd : Bool) (bytes : List Nat) : Nat :=
  (if bigEnd then bytes else bytes.reverse).foldl (fun n b => 256 * n + b) 0

/-- The fault of bytes at the end that are too few for a character. -/
def cutOff (e : Encoding) (position : Nat) (bytes : List Nat) : BadBytes :=
  ⟨e.name, "truncated data", bytes.headD 0, position, bytes.length⟩

/-- The units of bytes, two for each of them. -/
def units16 (bigEnd : Bool) (position : Nat) : List Nat → Except BadBytes (List Nat)
  | [] => .ok []
  | a :: b :: rest =>
    (units16 bigEnd (position + 2) rest).map (join bigEnd [a, b] :: ·)
  | bytes => .error (cutOff (.utf16 bigEnd) position bytes)

/-- The code points of bytes, four for each of them. -/
def points32 (bigEnd : Bool) (position : Nat) : List Nat → Except BadBytes (List Nat)
  | [] => .ok []
  | a :: b :: c :: d :: rest =>
    let n := join bigEnd [a, b, c, d]
    if n < 0x110000 then (points32 bigEnd (position + 4) rest).map (n :: ·)
    else .error
      ⟨(Encoding.utf32 bigEnd).name, "code point not in range(0x110000)", a, position, 4⟩
  | bytes => .error (cutOff (.utf32 bigEnd) position bytes)

end Encoding

/-- Whether bytes of the text could be other than UTF-8. -/
def hasEarlyNul (cs : List Char) : Bool :=
  (cs.take 4).contains '\x00'

/-- The characters of a text as a reader of its bytes sees them. A mark of byte order at the front
says that the bytes are UTF-8, and has no other part in the text; a text without the character zero
among the first four is UTF-8 too. -/
def decodeText (cs : List Char) : Except BadBytes (List Char) :=
  match cs with
  | '\uFEFF' :: rest => .ok rest
  | _ =>
    if !hasEarlyNul cs then .ok cs
    else
      let bytes := Utf8.encode cs
      match Encoding.ofBytes bytes with
      | .utf8 => .ok cs
      | .utf16 bigEnd =>
        (Encoding.units16 bigEnd 0 bytes).map fun units => (joinPairs units).map standIn
      | .utf32 bigEnd => (Encoding.points32 bigEnd 0 bytes).map (List.map standIn)

end Earley.Json
