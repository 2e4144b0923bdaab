import Earley.Decimal.Numeral

namespace Earley

/-- A time of day on a date, with the distance from universal time, in millionths of a second, if
it is known. -/
structure Instant where
  year : Nat
  month : Nat
  day : Nat
  hour : Nat := 0
  minute : Nat := 0
  second : Nat := 0
  microsecond : Nat := 0
  offset : Option Int := some 0
deriving DecidableEq, Repr

namespace Instant

/-- A fraction of a second, which is written only if there is one. -/
def fractionChars (microsecond : Nat) : List Char :=
  if microsecond = 0 then [] else '.' :: Decimal.fixed 6 microsecond

/-- The distance from universal time: hours and minutes, and seconds if there are any. -/
def offsetChars (offset : Int) : List Char :=
  let seconds := offset.natAbs / 1000000
  let fraction := offset.natAbs % 1000000
  (if offset < 0 then '-' else '+') :: Decimal.fixed 2 (seconds / 3600) ++
    ':' :: Decimal.fixed 2 (seconds / 60 % 60) ++
    (if seconds % 60 = 0 && fraction = 0 then []
      else ':' :: Decimal.fixed 2 (seconds % 60) ++ fractionChars fraction)

/-- The text of a time, with fields of fixed width. -/
def toChars (t : Instant) : List Char :=
  Decimal.fixed 4 t.year ++ '-' :: Decimal.fixed 2 t.month ++ '-' :: Decimal.fixed 2 t.day ++
    'T' :: Decimal.fixed 2 t.hour ++ ':' :: Decimal.fixed 2 t.minute ++
    ':' :: Decimal.fixed 2 t.second ++ fractionChars t.microsecond ++
    (match t.offset with
      | none => []
      | some offset => offsetChars offset)

/-- The text of a time. -/
def text (t : Instant) : String :=
  String.ofList t.toChars

/-- The date that lies `days` days after the first of March of the year 0. -/
def dateOfDays (days : Nat) : Nat × Nat × Nat :=
  let era := days / 146097
  let dayOfEra := days % 146097
  let yearOfEra := (dayOfEra - dayOfEra / 1460 + dayOfEra / 36524 - dayOfEra / 146096) / 365
  let dayOfYear := dayOfEra - (365 * yearOfEra + yearOfEra / 4 - yearOfEra / 100)
  let shifted := (5 * dayOfYear + 2) / 153
  let day := dayOfYear - (153 * shifted + 2) / 5 + 1
  let month := if shifted < 10 then shifted + 3 else shifted - 9
  (yearOfEra + era * 400 + (if month ≤ 2 then 1 else 0), month, day)

/-- The days from there to the first of January of a year after the year 0. -/
def daysToYear (year : Nat) : Nat :=
  let past := year - 1
  306 + 365 * past + past / 4 - past / 100 + past / 400

/-- The time `seconds` seconds after the beginning of 2024. -/
def sinceStart (seconds : Nat) : Instant :=
  let (year, month, day) := dateOfDays (daysToYear 2024 + seconds / 86400)
  { year, month, day
    hour := seconds / 3600 % 24, minute := seconds / 60 % 60, second := seconds % 60 }

end Instant

end Earley
