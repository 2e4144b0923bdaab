import Earley.Decimal.Reading
import Earley.Host
import Earley.Text.Lower
import Earley.Text.Percent

namespace Earley.Api

open Earley.Text

/-- Who and what an address leads to: a user before the last `@`, a host, and a number behind a colon.
The host is in ASCII. Hosts that look like numbers must be numbered addresses, and names with other
characters must have a form in ASCII. -/
structure Authority where
  user : List Char := []
  host : List Char := []
  number : Option Int := none
deriving DecidableEq, Repr

namespace Authority

/-- What is wrong with an authority. -/
inductive Fault where
  | fourNumbers (host : List Char)
  | sixNumbers (host : List Char)
  | badName (host : List Char)
  | badNumber (text : List Char)
deriving DecidableEq, Repr

def Fault.message : Fault → String
  | .fourNumbers host => "Invalid IPv4 address: " ++ quoted (String.ofList host)
  | .sixNumbers host => "Invalid IPv6 address: " ++ quoted (String.ofList host)
  | .badName host => "Invalid IDNA hostname: " ++ quoted (String.ofList host)
  | .badNumber text => "Invalid port: " ++ quoted (String.ofList text)

/-- Whether anything is told. -/
def isPresent (a : Authority) : Bool :=
  !a.user.isEmpty || !a.host.isEmpty || a.number.isSome

/-- The text behind the last `mark`, and the text before it if there is one. -/
def cutAtLast (mark : Char) (cs : List Char) : Option (List Char) × List Char :=
  match cs.reverse.dropWhile (· != mark) with
  | [] => (none, cs)
  | _ :: before => (some before.reverse, (cs.reverse.takeWhile (· != mark)).reverse)

/-- A host at the front, and what follows it. In brackets it may have colons. -/
def takeHost (cs : List Char) : List Char × List Char :=
  match cs, cutAtLast ']' cs with
  | '[' :: _, (some inner, rest) => (inner ++ [']'], rest)
  | _, _ => (cs.takeWhile (· != ':'), cs.dropWhile (· != ':'))

/-- Whether a text is four runs of digits with points between them. -/
def looksNumbered (cs : List Char) : Bool :=
  let runs := pieces (· == '.') cs
  runs.length == 4 && runs.all fun run => !run.isEmpty && run.all Char.isDigit

/-- Whether a text is a number below 256 without a needless zero. -/
def isOctet (cs : List Char) : Bool :=
  !cs.isEmpty && cs.length ≤ 3 && cs.all Char.isDigit && Decimal.ofDigits cs < 256 &&
    (cs.length == 1 || cs.head? != some '0')

/-- Whether a text is four such numbers with points between them. -/
def isFourNumbers (cs : List Char) : Bool :=
  let parts := pieces (· == '.') cs
  parts.length == 4 && parts.all isOctet

/-- Whether a text is a hexadecimal number of at most four digits. -/
def isGroup (cs : List Char) : Bool :=
  !cs.isEmpty && cs.length ≤ 4 && cs.all fun c => (Percent.hexDigit? c.toNat).isSome

/-- The groups on one side of a gap; a side of its own may be empty. -/
def sideSize? (side : List (List Char)) : Option Nat :=
  if side == [[]] then some 0 else if side.all isGroup then some side.length else none

/-- Whether groups are an address: eight of them, or fewer with one gap. -/
def areGroups (parts : List (List Char)) : Bool :=
  let gaps := (parts.zipIdx.filter fun (part, i) =>
    part.isEmpty && i != 0 && i + 1 != parts.length).map Prod.snd
  match gaps with
  | [] => parts.length == 8 && parts.all isGroup
  | [gap] => match sideSize? (parts.take gap), sideSize? (parts.drop (gap + 1)) with
    | some before, some behind => before + behind ≤ 7
    | _, _ => false
  | _ => false

/-- Whether a text is groups with colons between them. The last two groups may be four numbers, and
a zone may stand behind a percent sign. -/
def isSixNumbers (cs : List Char) : Bool :=
  let front := cs.takeWhile (· != '%')
  let zone := cs.dropWhile (· != '%')
  let parts := pieces (· == ':') front
  let last := parts.getLast?.getD []
  let groups := if last.contains '.' then parts.dropLast ++ [['0'], ['0']] else parts
  !cs.contains '/' && (zone.isEmpty || (zone.length != 1 && zone.count '%' == 1)) &&
    (!last.contains '.' || isFourNumbers last) &&
    3 ≤ parts.length && groups.length ≤ 9 && areGroups groups

/-- Bytes that stand for themselves in a host. -/
def isHostByte (b : Nat) : Bool :=
  (Char.ofNat b).isAlphanum || "-._~!$&'()*+,;=\"\x60\x7b\x7d%|\\".toList.any (·.toNat == b)

/-- The name of a host in ASCII, in small letters. -/
def plainName (host : List Char) : Except Fault (List Char) :=
  let small := (lower (String.ofList host)).toList
  if host.all (·.toNat < 0x80) then .ok (Percent.encode isHostByte small)
  else (Host.encode small).mapError fun _ => .badName host

/-- A host that is what it looks like, in ASCII. -/
def plainHost (host : List Char) : Except Fault (List Char) :=
  if looksNumbered host then
    if isFourNumbers host then .ok host else .error (.fourNumbers host)
  else if host.head? == some '[' && host.getLast? == some ']' && 2 ≤ host.length then
    if isSixNumbers ((host.drop 1).dropLast) then .ok host else .error (.sixNumbers host)
  else plainName host

/-- The number behind a colon, if there is one. -/
def readNumber? (text : List Char) : Except Fault (Option Int) :=
  if text.isEmpty then .ok none
  else match Decimal.readInt (String.ofList text) with
    | .ok n => .ok (some n)
    | .error _ => .error (.badNumber text)

/-- The authority that a text names. -/
def ofChars? (cs : List Char) : Except Fault Authority := do
  let (user, place) := cutAtLast '@' cs
  let (host, rest) := takeHost place
  let host ← plainHost host
  let number ← readNumber? (if rest.head? == some ':' then rest.drop 1 else rest)
  .ok ⟨user.getD [], host, number⟩

/-- The greatest number behind a colon. -/
def maxNumber : Nat := 65535

/-- Characters of a host's name outside brackets. -/
def isNameChar (c : Char) : Bool :=
  c.isAlphanum || "-._~!$&'()*+,;=%".toList.contains c

/-- Whether a text, as a header may have it, is a host with or without a number. -/
def isHostText (text : List Char) : Bool :=
  let (host, rest) := takeHost text
  let isName := !host.isEmpty && host.all isNameChar
  let isNumbered := host.head? == some '[' && 2 < host.length &&
    ((host.drop 1).dropLast).all fun c => c == ':' || c == '.' || (Percent.hexDigit? c.toNat).isSome
  let isNumber := match rest with
    | [] => true
    | ':' :: digits =>
      !digits.isEmpty && digits.all Char.isDigit && Decimal.ofDigits digits ≤ maxNumber
    | _ => false
  (isName || isNumbered) && isNumber

/-- The host and its number, as a header has them. -/
def hostText (a : Authority) : List Char :=
  a.host ++ (match a.number with
    | some n => ':' :: Decimal.integer n
    | none => [])

end Authority

end Earley.Api
