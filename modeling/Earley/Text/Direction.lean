import Earley.Text.Mark

namespace Earley.Text

/-- The part that a code point takes in the direction of a line. -/
inductive Direction where
  | left
  | right
  | arabicRight
  | arabicNumber
  | number
  | sign
  | other
  | joiner
  | mark
deriving DecidableEq, Repr

namespace Direction

/-- Letters that are written from right to left, but not the Arabic ones. -/
def rightLetters : Ranges :=
  [(1488, 1524), (1984, 2026), (2036, 2037), (2048, 2069), (2074, 2074), (2084, 2084), (2088, 2088),
   (2112, 2136), (67584, 68096), (68112, 68149), (68192, 68324), (68352, 68850), (69248, 69289),
   (69296, 69415), (69488, 69505), (69552, 69622), (124928, 125124), (125218, 125251),
   (125259, 125273)]

/-- Arabic letters and those of related scripts. -/
def arabicLetters : Ranges :=
  [(1568, 1610), (1646, 1647), (1649, 1749), (1765, 1766), (1774, 1775), (1786, 1808), (1810, 1839),
   (1869, 1957), (1969, 1969), (2144, 2190), (2208, 2249), (65139, 65139), (68864, 68899),
   (69424, 69445)]

/-- Arabic digits. -/
def arabicDigits : Ranges :=
  [(1632, 1641), (68912, 68921)]

/-- Digits. -/
def digits : Ranges :=
  [(48, 57), (1776, 1785)]

/-- Signs without a direction of their own. -/
def neutral : Ranges :=
  [(183, 183), (697, 698), (710, 719), (748, 748), (885, 885), (11823, 11823), (12539, 12539),
   (42623, 42623), (42775, 42783), (42888, 42888)]

/-- Marks that are written from left to right as their letters are. -/
def leftMarks : List Nat := [0xCBF, 0xCC6, 0x11A07, 0x11A08, 0x11C3F]

/-- The direction of a code point that names of hosts may have. -/
def ofCode (n : Nat) : Direction :=
  if leftMarks.contains n then .left
  else if isNonspacingMark n then .mark
  else if rightLetters.contains n then .right
  else if arabicLetters.contains n then .arabicRight
  else if arabicDigits.contains n then .arabicNumber
  else if digits.contains n then .number
  else if neutral.contains n then .other
  else if n == 0x2D then .sign
  else if n == 0x200C || n == 0x200D then .joiner
  else .left

end Direction

end Earley.Text
