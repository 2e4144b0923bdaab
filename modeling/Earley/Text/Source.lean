import Earley.Decimal.Numeral
import Earley.Text.Blank

namespace Earley.Text

/-- A fault and the line it was found in, without the blanks around it. Lines count from one, and
the first line is the first that is not blank. -/
structure LineFault (ε : Type) where
  number : Nat
  line : String
  cause : ε
deriving DecidableEq, Repr

/-- The text of a fault, with the line below it. -/
def LineFault.describe {ε : Type} (message : ε → String) (f : LineFault ε) : String :=
  "Line " ++ Decimal.integerText f.number ++ ": " ++ message f.cause ++ "\n  " ++ f.line

/-- Whether a trimmed line says nothing. -/
def isSilent : List Char → Bool
  | [] => true
  | c :: _ => c == '#'

/-- Reads lines one after the other; `read` gives the state after a line and the line's fault. -/
def readLinesFrom {σ ε : Type} (read : σ → List Char → σ × Option ε) (number : Nat) (state : σ) :
    List (List Char) → σ × Option (LineFault ε)
  | [] => (state, none)
  | raw :: rest =>
    let line := trim raw
    if isSilent line then readLinesFrom read (number + 1) state rest
    else match read state line with
      | (next, none) => readLinesFrom read (number + 1) next rest
      | (next, some cause) => (next, some ⟨number, String.ofList line, cause⟩)

/-- Reads a whole text from an initial state. Blank lines and lines that begin with `#` say nothing, and
reading ends at the first line with a fault. -/
def readText {σ ε : Type} (read : σ → List Char → σ × Option ε) (initial : σ) (text : String) :
    σ × Option (LineFault ε) :=
  readLinesFrom read 1 initial (lines (trim text.toList))

end Earley.Text
