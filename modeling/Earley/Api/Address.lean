import Earley.Api.Authority

namespace Earley.Api

open Earley.Text

/-- A web address: a scheme, a host, a path, a query behind `?`, and a fragment behind `#`. The path
begins with a slash, unless dots have taken it all away. An address without a host of its own leads to
the service where it is. -/
structure Address where
  path : List Char
  query : Option (List Char) := none
  fragment : Option (List Char) := none
  scheme : List Char := []
  place : Option Authority := none
deriving DecidableEq, Repr

namespace Address

/-- What is wrong with the text of an address. -/
inductive Fault where
  | long
  | longPart (name : String)
  | control (c : Char) (position : Nat)
  | authority (fault : Authority.Fault)
  | twoSlashes
  | colon
deriving DecidableEq, Repr

def Fault.message : Fault → String
  | .long => "URL too long"
  | .longPart name => "URL component '" ++ name ++ "' too long"
  | .control c position =>
    "Invalid non-printable ASCII character in URL, " ++ quoted (String.singleton c) ++
      " at position " ++ Decimal.integerText position ++ "."
  | .authority fault => fault.message
  | .twoSlashes => "Relative URLs cannot have a path starting with '//'"
  | .colon => "Relative URLs cannot have a path starting with ':'"

/-- The longest address, and the longest part of one. -/
def maxLength : Nat := 65536

/-- Control characters of ASCII cannot stand in an address. -/
def isControl (c : Char) : Bool :=
  c.toNat < 0x20 || c.toNat == 0x7F

/-- The text before the first `mark`, and the text behind it if there is one. -/
def cutAt (mark : Char) (cs : List Char) : List Char × Option (List Char) :=
  match cs.dropWhile (· != mark) with
  | [] => (cs, none)
  | _ :: rest => (cs.takeWhile (· != mark), some rest)

/-- The parts of a path without single dots. Two dots take away the part before them, but not the
empty one that stands for the slash in front. `kept` holds the parts so far, the last one first. -/
def resolveParts (kept : List (List Char)) : List (List Char) → List (List Char)
  | [] => kept.reverse
  | part :: rest =>
    if part == ['.'] then resolveParts kept rest
    else if part == ['.', '.'] then resolveParts (if kept == [[]] then kept else kept.tail) rest
    else resolveParts (part :: kept) rest

/-- A path without parts that are dots. -/
def resolve (path : List Char) : List Char :=
  joinWith ['/'] (resolveParts [] (pieces (· == '/') path))

/-- Bytes that stand for themselves in a query. -/
def isQueryByte (b : Nat) : Bool :=
  0x21 ≤ b && b ≤ 0x7E && !(['"', '#', '<', '>'].any (·.toNat == b))

/-- Bytes that stand for themselves in a path. -/
def isPathByte (b : Nat) : Bool :=
  isQueryByte b && !(['?', '\x60', '{', '}'].any (·.toNat == b))

/-- Bytes that stand for themselves in a fragment. -/
def isFragmentByte (b : Nat) : Bool :=
  b == '#'.toNat || (isQueryByte b && b != '\x60'.toNat)

/-- A part of an address behind its mark. -/
def marked (mark : Char) (safe : Nat → Bool) : Option (List Char) → List Char
  | none => []
  | some part => mark :: Percent.encode safe part

/-- The address as it is shown. -/
def text (a : Address) : String :=
  String.ofList (Percent.encode isPathByte a.path ++ marked '?' isQueryByte a.query ++
    marked '#' isFragmentByte a.fragment)

/-- A text whose characters can stand in an address. -/
def checkChars (cs : List Char) : Except Fault Unit :=
  if maxLength < cs.length then .error .long
  else match cs.find? isControl with
    | some c => .error (.control c (cs.idxOf c))
    | none => .ok ()

/-- The scheme before a colon, and what follows it. It may be empty; without a colon there is none. -/
def takeScheme (cs : List Char) : List Char × List Char :=
  let scheme := cs.takeWhile (· != ':')
  let isScheme := match scheme with
    | [] => true
    | c :: rest => c.isAlpha && rest.all fun d => d.isAlphanum || "+.-".toList.contains d
  match cs.dropWhile (· != ':') with
  | _ :: rest => if isScheme then (scheme, rest) else ([], cs)
  | [] => ([], cs)

/-- The authority behind two slashes, and what follows it. -/
def takeAuthority : List Char → List Char × List Char
  | '/' :: '/' :: cs =>
    let isEnd := fun c => c == '/' || c == '?' || c == '#'
    (cs.takeWhile (!isEnd ·), cs.dropWhile (!isEnd ·))
  | cs => ([], cs)

/-- The path of an address that names no host, seen from the root of the service. -/
def fromRoot (a : Address) : Except Fault Address :=
  let path := '/' :: a.path.dropWhile (· == '/')
  if maxLength < (Percent.encode isPathByte path).length then .error (.longPart "path")
  else if maxLength < (Percent.encode isQueryByte (a.query.getD [])).length then
    .error (.longPart "query")
  else .ok { path := resolve path, query := a.query }

/-- The address in a text. With a scheme and a host it stands as it is; any other is meant from the
root of the service on, and loses its fragment there. -/
def ofText? (text : String) : Except Fault Address := do
  checkChars text.toList
  let (scheme, rest) := takeScheme text.toList
  let (place, rest) := takeAuthority rest
  let (front, fragment) := cutAt '#' rest
  let (path, query) := cutAt '?' front
  let authority ← (Authority.ofChars? place).mapError .authority
  if scheme.isEmpty && !authority.isPresent then
    if ['/', '/'].isPrefixOf path then .error .twoSlashes
    else if path.head? == some ':' then .error .colon
    else fromRoot { path, query }
  else if scheme.isEmpty || authority.host.isEmpty then fromRoot { path := resolve path, query }
  else
    let scheme := scheme.map Char.toLower
    .ok { path := resolve path, query, fragment, scheme, place := some authority }

/-- Schemes whose hosts need no number. -/
def knownSchemes : List (List Char) :=
  ["http".toList, "https".toList, "ws".toList, "wss".toList]

/-- Whether it is known where the service is: its place is told in full, by a header that names it
or else by the address, or it is the usual one of the scheme. -/
def isPlaced (a : Address) (header : Option String) : Bool :=
  match a.place with
  | none => true
  | some place =>
    knownSchemes.contains a.scheme ||
      Authority.isHostText ((header.map String.toList).getD place.hostText)

/-- The path that a host sees, with percent notation undone. -/
def hostPath (a : Address) : List Char :=
  if a.path.isEmpty then ['/'] else Percent.decode a.path

end Address

end Earley.Api
