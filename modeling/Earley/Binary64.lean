namespace Earley

/-- The count of magnitudes from one power of two up to the next. -/
def Binary64.blockSize : Nat := Nat.pow 2 52

/-- The count of finite magnitudes. -/
def Binary64.rankBound : Nat := 2047 * Binary64.blockSize

/-- A binary64 number. Zero has two signs, and there is one value that is not a number. A finite
magnitude is known by its rank among all finite magnitudes in ascending order, which is also its bit
pattern without the sign. -/
inductive Binary64 where
  | finite (negative : Bool) (rank : Fin Binary64.rankBound)
  | infinite (negative : Bool)
  | nan
deriving DecidableEq, Repr

namespace Binary64

/-- The magnitude of a given rank, in units. In the first two blocks of ranks the magnitudes are spaced
by one unit; each further block doubles the space. All magnitudes are whole multiples of the unit, which
is `2 ^ (-1074)`, so that reading, rounding and comparing are done in `Nat`. -/
def units (rank : Nat) : Nat :=
  if rank < blockSize then rank
  else (blockSize + rank % blockSize) * Nat.pow 2 (rank / blockSize - 1)

/-- The whole number nearest to `num / den`; of two, the even one. -/
def roundHalfEven (num den : Nat) : Nat :=
  let q := num / den
  let r := num % den
  if 2 * r < den then q else if den < 2 * r then q + 1 else q + q % 2

/-- The rank nearest to `num / den` units, ties to the even one. A quotient of more than 53 bits
loses its low bits; a carry out of the rounded bits leads to the next block of ranks by itself. -/
def nearestRank (num den : Nat) : Nat :=
  let lost := (num / den).log2 - 52
  lost * blockSize + roundHalfEven num (den * Nat.pow 2 lost)

/-- The number whose magnitude has the given rank, or an infinity if no finite one has it. -/
def ofRank (negative : Bool) (rank : Nat) : Binary64 :=
  if h : rank < rankBound then .finite negative ⟨rank, h⟩ else .infinite negative

/-- The number nearest to `num / den` units. -/
def ofUnits (negative : Bool) (num den : Nat) : Binary64 :=
  ofRank negative (nearestRank num den)

/-- The count of units in one. -/
def unitsPerOne : Nat := Nat.pow 2 1074

/-- The number nearest to an integer; `none` if it is out of range. -/
def ofInt? (n : Int) : Option Binary64 :=
  match ofUnits (n < 0) (n.natAbs * unitsPerOne) 1 with
  | .finite negative rank => some (.finite negative rank)
  | _ => none

def one : Binary64 := .finite false ⟨1023 * blockSize, by decide⟩

def isFinite : Binary64 → Bool
  | .finite _ _ => true
  | _ => false

/-- Equality of values: the two zeros are equal, and `nan` is equal to nothing. -/
def same : Binary64 → Binary64 → Bool
  | .finite s r, .finite t q => r == q && (s == t || r.val == 0)
  | .infinite s, .infinite t => s == t
  | _, _ => false

end Binary64

end Earley
