import Earley.Decimal.Reading

namespace Earley.Decimal

/-- The place of the decimal point: `10 ^ (place - 1) ≤ units / 2 ^ 1074 < 10 ^ place`. -/
def place (units : Nat) : Int :=
  let whole := units / Binary64.unitsPerOne
  if whole = 0 then
    ((numeral (units * Nat.pow 10 400 / Binary64.unitsPerOne)).length : Int) - 400
  else (numeral whole).length

/-- The value `units / 2 ^ 1074` in steps of `10 ^ exponent`, as numerator and denominator. -/
def inSteps (units : Nat) : Int → Nat × Nat
  | .ofNat e => (units, Binary64.unitsPerOne * Nat.pow 10 e)
  | .negSucc e => (units * Nat.pow 10 (e + 1), Binary64.unitsPerOne)

/-- The neighbour of the value on the grid of `10 ^ exponent` that reads back; the nearer if both do,
and of two equally near ones the even. Only these two need a test, and the test is the reader itself. -/
def gridHit? (rank : Fin Binary64.rankBound) (exponent : Int) : Option Written :=
  let (num, den) := inSteps (Binary64.units rank) exponent
  let below := num / den
  let nearest := Binary64.roundHalfEven num den
  let farther := if nearest = below then below + 1 else below
  ([nearest, farther].map fun digits => (⟨false, digits, exponent⟩ : Written)).find?
    fun w => w.toBinary64 == .finite false rank

/-- All digits of the value. -/
def exactDigits (rank : Fin Binary64.rankBound) : Written :=
  ⟨false, Binary64.units rank * Nat.pow 5 1074, -1074⟩

/-- The fewest digits that read back: of all decimal numbers that the value is the nearest one to, a
shortest, and of these the nearest. The least count of digits that can hit is tried first. Seventeen
digits always hit; the exact expansion stands behind them, so that every answer reads back by
construction. -/
def shortest (rank : Fin Binary64.rankBound) : Written :=
  let top := place (Binary64.units rank)
  ((List.range 17).findSome? fun k => gridHit? rank (top - (k + 1 : Nat))).getD (exactDigits rank)

end Earley.Decimal
