import Earley.Text.Ranges

namespace Earley.Text

/-- White space of Unicode 14, with the separators U+001C to U+001F. -/
def blanks : Ranges :=
  [(9, 13), (28, 32), (133, 133), (160, 160), (5760, 5760), (8192, 8202), (8232, 8233),
   (8239, 8239), (8287, 8287), (12288, 12288)]

/-- Whether the character is white space. -/
def isBlank (c : Char) : Bool :=
  blanks.contains c.toNat

/-- The text without blanks at its front. -/
def trimLeft (cs : List Char) : List Char :=
  cs.dropWhile isBlank

/-- The text without blanks at its back. -/
def trimRight (cs : List Char) : List Char :=
  (cs.reverse.dropWhile isBlank).reverse

/-- The text without blanks at either end. -/
def trim (cs : List Char) : List Char :=
  trimRight (trimLeft cs)

/-- The pieces between the places where `cut` holds; `n` such places give `n + 1` pieces. -/
def pieces (cut : Char → Bool) : List Char → List (List Char)
  | [] => [[]]
  | c :: rest =>
    if cut c then [] :: pieces cut rest
    else match pieces cut rest with
      | [] => [[c]]
      | piece :: more => (c :: piece) :: more

/-- The maximal runs without blanks, in order. -/
def items (cs : List Char) : List (List Char) :=
  (pieces isBlank cs).filter (!·.isEmpty)

/-- The lines of a text, without their line feeds. Every other break is an ordinary blank. -/
def lines (cs : List Char) : List (List Char) :=
  pieces (· == '\n') cs

/-- The texts in order, with `separator` between neighbours. -/
def joinWith (separator : List Char) : List (List Char) → List Char
  | [] => []
  | [piece] => piece
  | piece :: more => piece ++ separator ++ joinWith separator more

end Earley.Text
