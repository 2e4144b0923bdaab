import Earley.Decimal.Numeral

namespace Earley.Text

/-- Bytes that do not fit into an encoding: `count` of them from `start` on, the first one `first`. -/
structure BadBytes where
  encoding : String
  reason : String
  first : Nat
  start : Nat
  count : Nat
deriving DecidableEq, Repr

/-- One byte is shown, of several the positions only. -/
def BadBytes.message (b : BadBytes) : String :=
  let place := if b.count = 1 then
      "byte 0x" ++ String.ofList (Decimal.hex 2 b.first) ++ " in position " ++
        Decimal.integerText b.start
    else
      "bytes in position " ++ Decimal.integerText b.start ++ "-" ++
        Decimal.integerText (b.start + b.count - 1)
  "'" ++ b.encoding ++ "' codec can't decode " ++ place ++ ": " ++ b.reason

end Earley.Text
