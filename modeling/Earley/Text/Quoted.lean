import Earley.Decimal.Numeral
import Earley.Text.Printable

namespace Earley.Text

/-- Single quotes, unless the text has one and has no double quote. -/
def quoteFor (cs : List Char) : Char :=
  if cs.contains '\'' && !cs.contains '"' then '"' else '\''

/-- The escape of a character by its number. -/
def quoteEscape (c : Char) : List Char :=
  if c.toNat < 0x100 then '\\' :: 'x' :: Decimal.hex 2 c.toNat
  else if c.toNat < 0x10000 then '\\' :: 'u' :: Decimal.hex 4 c.toNat
  else '\\' :: 'U' :: Decimal.hex 8 c.toNat

/-- One character inside `quote` marks. -/
def quoteChar (quote c : Char) : List Char :=
  if c == quote || c == '\\' then ['\\', c]
  else if c == '\n' then ['\\', 'n']
  else if c == '\r' then ['\\', 'r']
  else if c == '\t' then ['\\', 't']
  else if isPrintable c then [c]
  else quoteEscape c

/-- The text between quotes. -/
def quote (cs : List Char) : List Char :=
  let mark := quoteFor cs
  mark :: cs.flatMap (quoteChar mark) ++ [mark]

/-- Code points between quotes. Those that are no characters are escaped. -/
def quoteCodes (codes : List Nat) : List Char :=
  let mark := quoteFor (codes.map Char.ofNat)
  let shown := fun n =>
    if n.isValidChar then quoteChar mark (Char.ofNat n) else '\\' :: 'u' :: Decimal.hex 4 n
  mark :: codes.flatMap shown ++ [mark]

/-- The text between quotes, as error messages show it, with escapes for what cannot be shown. -/
def quoted (s : String) : String :=
  String.ofList (quote s.toList)

end Earley.Text
