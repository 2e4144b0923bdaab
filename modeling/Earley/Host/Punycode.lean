namespace Earley.Host.Punycode

/-- From this value on, a digit is not the last one of its number. -/
def threshold (place bias : Nat) : Nat := max 1 (min 26 (36 * (place + 1) - bias))

private theorem one_le_threshold (place bias : Nat) : 1 ≤ threshold place bias := by
  unfold threshold
  omega

private theorem threshold_le (place bias : Nat) : threshold place bias ≤ 26 := by
  unfold threshold
  omega

/-- How often a number has to be divided until it is small, times 36, and what is left. -/
def shrink (delta : Nat) : Nat × Nat :=
  if 455 < delta then
    let (divisions, left) := shrink (delta / 35)
    (divisions + 36, left)
  else (0, delta)
termination_by delta

/-- The bias of the next number, from the last one and the count of code points so far. -/
def adapt (delta : Nat) (isFirst : Bool) (count : Nat) : Nat :=
  let damped := if isFirst then delta / 700 else delta / 2
  let (divisions, left) := shrink (damped + damped / count)
  divisions + 36 * left / (left + 38)

/-- The digit of a value below 36. -/
def digit (value : Nat) : Char := Char.ofNat (if value < 26 then 97 + value else 22 + value)

/-- The value of a digit of either case. -/
def digitValue? (c : Char) : Option Nat :=
  if c.isDigit then some (c.toNat - 22)
  else if c.isAlpha then some (c.toUpper.toNat - 65)
  else none

/-- The digits of a number from a place on. -/
def writeNumber (bias place value : Nat) : List Char :=
  let t := threshold place bias
  if value < t then [digit value]
  else digit (t + (value - t) % (36 - t)) :: writeNumber bias (place + 1) ((value - t) / (36 - t))
termination_by value
decreasing_by
  have hlow := one_le_threshold place bias
  have hhigh := threshold_le place bias
  have hdiv := Nat.div_le_self (value - threshold place bias) (36 - threshold place bias)
  omega

/-- A number at the front of a text, of which digits worth `value` were read, and what follows it. -/
def readNumber? (bias place weight value : Nat) : List Char → Option (Nat × List Char)
  | [] => none
  | c :: rest => do
    let d ← digitValue? c
    let t := threshold place bias
    let value := value + d * weight
    if d < t then some (value, rest)
    else readNumber? bias (place + 1) (weight * (36 - t)) value rest

/-- What is known while code points are written: the steps since the last one, the bias, and the
count of code points so far. -/
structure State where
  delta : Nat
  bias : Nat
  count : Nat

/-- Writes all places of one code point in a text. -/
def writeCode (isFirst : Bool) (n : Nat) (s : State) : List Nat → List Char × State
  | [] => ([], s)
  | code :: rest =>
    if code < n then writeCode isFirst n { s with delta := s.delta + 1 } rest
    else if code == n then
      let bias := adapt s.delta isFirst (s.count + 1)
      let (more, after) := writeCode false n ⟨0, bias, s.count + 1⟩ rest
      (writeNumber s.bias 0 s.delta ++ more, after)
    else writeCode isFirst n s rest

/-- Writes the code points of an ascending list, from `n` on. -/
def writeCodes (codes : List Nat) (isFirst : Bool) (n : Nat) (s : State) : List Nat → List Char
  | [] => []
  | m :: rest =>
    let s := { s with delta := s.delta + (m - n) * (s.count + 1) }
    let (written, s) := writeCode isFirst m s codes
    written ++ writeCodes codes false (m + 1) { s with delta := s.delta + 1 } rest

/-- Code points in plain ASCII (Punycode): the ASCII ones as they stand, and behind them, for each other
code point in ascending order, how many steps it is from the one before, where a step is a place in the
text or else the next code point. Steps are numbers in base 36 whose digits tell themselves where a
number ends. -/
def encode (codes : List Nat) : List Char :=
  let plain := codes.filter (· < 0x80)
  let others := ((codes.filter (0x80 ≤ ·)).mergeSort (· ≤ ·)).eraseDups
  plain.map Char.ofNat ++ (if plain.isEmpty then [] else ['-']) ++
    writeCodes codes true 0x80 ⟨0, 72, plain.length⟩ others

/-- Puts code points into a text, one for each number. `place` is where the last one stands, and
each call but the last takes a character, so the length of the numbers is enough `fuel`. -/
def insertCodes : Nat → Bool → Nat → Nat → Nat → List Nat → List Char → Option (List Nat)
  | 0, _, _, _, _, codes, _ => some codes
  | _ + 1, _, _, _, _, codes, [] => some codes
  | fuel + 1, isFirst, bias, n, place, codes, numbers => do
    let (delta, rest) ← readNumber? bias 0 1 0 numbers
    let steps := place + delta
    let n := n + steps / (codes.length + 1)
    let place := steps % (codes.length + 1)
    if 0x10FFFF < n then none
    else
      let codes := codes.take place ++ n :: codes.drop place
      insertCodes fuel false (adapt delta isFirst codes.length) n (place + 1) codes rest

/-- The code points that a text in ASCII stands for. -/
def decode? (text : List Char) : Option (List Nat) :=
  let numbers := (text.reverse.takeWhile (· != '-')).reverse
  let plain := text.take (text.length - numbers.length - 1)
  insertCodes numbers.length true 72 0x80 0 (plain.map Char.toNat) numbers

end Earley.Host.Punycode
