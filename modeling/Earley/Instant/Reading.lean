import Earley.Decimal.Reading
import Earley.Instant

namespace Earley.Instant

/-- A field of `width` digits at the front of a text. -/
def takeField? (width : Nat) (cs : List Char) : Option (Nat × List Char) :=
  let digits := cs.take width
  if digits.length = width && digits.all Char.isDigit then
    some (Decimal.ofDigits digits, cs.drop width)
  else none

def isLeap (year : Nat) : Bool :=
  year % 4 = 0 && (year % 100 ≠ 0 || year % 400 = 0)

def daysInMonth (year month : Nat) : Nat :=
  if month = 2 then (if isLeap year then 29 else 28)
  else if month = 4 || month = 6 || month = 9 || month = 11 then 30
  else 31

/-- The day of the week that a year begins with; Monday is 0. -/
def firstWeekday (year : Nat) : Nat :=
  (daysToYear year + 2) % 7

/-- A year has 53 weeks if it begins with a Thursday, or is a leap year that begins with a
Wednesday. -/
def weeksInYear (year : Nat) : Nat :=
  if firstWeekday year = 3 || (firstWeekday year = 2 && isLeap year) then 53 else 52

/-- The date of a day in a week; the first week is the one with the first Thursday. -/
def dateOfWeek? (year week day : Nat) : Option (Nat × Nat × Nat) :=
  if 1 ≤ year && 1 ≤ week && week ≤ weeksInYear year && 1 ≤ day && day ≤ 7 then
    let weekday := firstWeekday year
    let monday := daysToYear year + (if weekday ≤ 3 then 0 else 7) - weekday
    some (dateOfDays (monday + 7 * (week - 1) + (day - 1)))
  else none

/-- Where the date ends, from where the marks of months and weeks stand. Behind a week, two digits
are hours and not a day; without marks, the count of digits tells. -/
def dateLength? (cs : List Char) : Option Nat :=
  let char := fun i : Nat => cs[i]?
  if cs.length < 7 then none
  else if cs.length = 7 then some 7
  else if char 4 == some '-' then
    if char 5 == some 'W' then
      if char 8 == some '-' then
        if cs.length = 9 then none
        else if (char 10).any Char.isDigit then some 8 else some 10
      else some 8
    else some 10
  else if char 4 == some 'W' then
    let digits := 7 + ((cs.drop 7).takeWhile Char.isDigit).length
    if digits < 9 then some digits else if digits % 2 = 0 then some 7 else some 8
  else some 8

/-- The date that a text is. -/
def readDate? (cs : List Char) : Option (Nat × Nat × Nat) := do
  let (year, rest) ← takeField? 4 cs
  let isMarked := rest.head? == some '-'
  let skipMark := fun (cs : List Char) =>
    if !isMarked then some cs else if cs.head? == some '-' then some (cs.drop 1) else none
  match ← skipMark rest with
  | 'W' :: rest =>
    let (week, rest) ← takeField? 2 rest
    if rest.isEmpty then dateOfWeek? year week 1
    else
      let (day, _) ← takeField? 1 (← skipMark rest)
      dateOfWeek? year week day
  | rest =>
    let (month, rest) ← takeField? 2 rest
    let (day, rest) ← takeField? 2 (← skipMark rest)
    if rest.isEmpty then some (year, month, day) else none

/-- The millionths of a second that digits are, and what follows them. Digits after the sixth do not
count; before it there must be nothing else. -/
def takeFraction? (cs : List Char) : Option (Nat × List Char) :=
  let counted := cs.take 6
  if counted.all Char.isDigit then
    some (Decimal.ofDigits (counted ++ List.replicate (6 - counted.length) '0'),
      (cs.drop 6).dropWhile Char.isDigit)
  else none

/-- Fields of a time of day, of which there are `fields` so far, from hours on. With `isMarked`,
colons stand between them. A fraction is one of seconds, wherever it stands. What is left at the
end is given back too. -/
def readFields? (isMarked : Bool) (fields : List Nat) (cs : List Char) :
    Nat → Option (List Nat × List Char)
  | 0 => (takeFraction? cs).map fun (fraction, rest) => (fields ++ [fraction], rest)
  | left + 1 => do
    let (field, rest) ← takeField? 2 cs
    let isMarked := if fields.isEmpty then rest.head? == some ':' else isMarked
    let fields := fields ++ [field]
    match rest with
    | [] => some (fields, [])
    | mark :: more =>
      if more.isEmpty && mark.toNat < 0x80 then some (fields, rest)
      else if isMarked && mark == ':' then readFields? isMarked fields more left
      else if mark == '.' || mark == ',' then
        (takeFraction? more).map fun (fraction, rest) =>
          (fields ++ List.replicate left 0 ++ [fraction], rest)
      else if isMarked then none
      else readFields? isMarked fields rest left

/-- Hours, minutes, seconds and millionths that a text is, and what is left of it. -/
def readClock? (cs : List Char) : Option ((Nat × Nat × Nat × Nat) × List Char) := do
  let (fields, rest) ← readFields? false [] cs 3
  let field := fun i => fields[i]?.getD 0
  some ((field 0, field 1, field 2, field 3), rest)

def isOffsetMark (c : Char) : Bool :=
  c == '+' || c == '-' || c == 'Z'

/-- The distance from universal time that stands behind a time of day. Without a second in it, it is
no distance. -/
def readOffset? : List Char → Option (Option Int)
  | [] => some none
  | ['Z'] => some (some 0)
  | 'Z' :: _ => none
  | sign :: cs => do
    let ((hours, minutes, seconds, fraction), rest) ← readClock? cs
    let total := hours * 3600 + minutes * 60 + seconds
    let size : Int := if total = 0 then 0 else total * 1000000 + fraction
    if rest.isEmpty && size < 86400000000 then some (some (if sign == '-' then -size else size))
    else none

/-- Whether the fields of a time are in their ranges. -/
def isValid (t : Instant) : Bool :=
  1 ≤ t.year && t.year ≤ 9999 && 1 ≤ t.month && t.month ≤ 12 && 1 ≤ t.day &&
    t.day ≤ daysInMonth t.year t.month && t.hour < 24 && t.minute < 60 && t.second < 60

/-- The time that a text denotes: a date by month or by week, one character, a time of day, and the
distance from universal time. The marks between the fields of a date, and between those of a time, may
be left out all together. A date alone is its midnight. -/
def ofText? (text : String) : Option Instant := do
  let length ← dateLength? text.toList
  let (year, month, day) ← readDate? (text.toList.take length)
  if text.length ≤ length then
    let t : Instant := { year, month, day, offset := none }
    if t.isValid then some t else none
  else
    let time := text.toList.drop (length + 1)
    let behind := time.dropWhile (!isOffsetMark ·)
    let ((hour, minute, second, microsecond), rest) ← readClock? (time.takeWhile (!isOffsetMark ·))
    let offset ← readOffset? behind
    let t : Instant := { year, month, day, hour, minute, second, microsecond, offset }
    if t.isValid && (rest.isEmpty || !behind.isEmpty) then some t else none

end Earley.Instant
