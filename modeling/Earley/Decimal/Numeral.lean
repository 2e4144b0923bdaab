namespace Earley.Decimal

/-- The digit of a value below sixteen. -/
def digitChar (d : Nat) : Char :=
  Char.ofNat (if d < 10 then 48 + d else 87 + d)

/-- The decimal digits of a number, with no zero in front unless it is the only one. -/
def numeral (n : Nat) : List Char :=
  if n < 10 then [digitChar n] else numeral (n / 10) ++ [digitChar (n % 10)]

/-- A minus sign in front of a negative number, and its digits. -/
def integer (n : Int) : List Char :=
  if n < 0 then '-' :: numeral n.natAbs else numeral n.natAbs

/-- The text of an integer. -/
def integerText (n : Int) : String :=
  String.ofList (integer n)

/-- The lowest `width` decimal digits of a number. -/
def fixed : Nat → Nat → List Char
  | 0, _ => []
  | width + 1, n => fixed width (n / 10) ++ [digitChar (n % 10)]

/-- The lowest `width` hexadecimal digits of a number. -/
def hex : Nat → Nat → List Char
  | 0, _ => []
  | width + 1, n => hex width (n / 16) ++ [digitChar (n % 16)]

end Earley.Decimal
