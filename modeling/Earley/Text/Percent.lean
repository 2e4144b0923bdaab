import Earley.Decimal.Numeral
import Earley.Text.Utf8

namespace Earley.Text.Percent

/-- The value of a hexadecimal digit of either case. -/
def hexDigit? (b : Nat) : Option Nat :=
  if 48 ≤ b && b ≤ 57 then some (b - 48)
  else if 97 ≤ b && b ≤ 102 then some (b - 87)
  else if 65 ≤ b && b ≤ 70 then some (b - 55)
  else none

/-- The bytes that a notation stands for; a percent sign without two digits stands for itself. -/
def bytes : List Nat → List Nat
  | 37 :: a :: b :: rest =>
    match hexDigit? a, hexDigit? b with
    | some x, some y => (16 * x + y) :: bytes rest
    | _, _ => 37 :: bytes (a :: b :: rest)
  | b :: rest => b :: bytes rest
  | [] => []

/-- The text that a notation stands for. -/
def decode (cs : List Char) : List Char :=
  Utf8.decodeLossy 0 (bytes (Utf8.encode cs))

/-- One byte in upper-case notation. -/
def byte (b : Nat) : List Char :=
  '%' :: (Decimal.hex 2 b).map Char.toUpper

/-- The notation of a text. Bytes that are `safe`, all of them ASCII, stand for themselves; with the
percent sign among them, what is in notation already stays so. -/
def encode (safe : Nat → Bool) (cs : List Char) : List Char :=
  (Utf8.encode cs).flatMap fun b => if safe b then [Char.ofNat b] else byte b

end Earley.Text.Percent
