namespace Earley.Text.Utf8

/-- What is wrong with some bytes. -/
inductive Reason where
  | badStart
  | badContinuation
  | ended
deriving DecidableEq, Repr

def Reason.message : Reason → String
  | .badStart => "invalid start byte"
  | .badContinuation => "invalid continuation byte"
  | .ended => "unexpected end of data"

def isContinuation (b : Nat) : Bool := 0x80 ≤ b && b < 0xC0

/-- Whether `second` may follow `first`: overlong forms, halves of pairs and values past the last
code point are cut off here. -/
def isSecond (first second : Nat) : Bool :=
  isContinuation second &&
    (if first = 0xE0 then 0xA0 ≤ second
    else if first = 0xED then second < 0xA0
    else if first = 0xF0 then 0x90 ≤ second
    else if first = 0xF4 then second < 0x90
    else true)

/-- The number that bytes make up by their low six bits, behind what `first` gives. -/
def join (first : Nat) (more : List Nat) : Char :=
  Char.ofNat (more.foldl (fun n b => n * 64 + b % 64) first)

/-- One character, or a fault. Both cover at least one byte. -/
inductive Step where
  | char (c : Char) (count : Nat)
  | fault (reason : Reason) (count : Nat)
deriving DecidableEq, Repr

/-- What the bytes begin with. -/
def step (first : Nat) (rest : List Nat) : Step :=
  if first < 0x80 then .char (Char.ofNat first) 1
  else if first < 0xC2 then .fault .badStart 1
  else if first < 0xE0 then
    match rest with
    | [] => .fault .ended 1
    | b :: _ => if isContinuation b then .char (join (first % 32) [b]) 2 else .fault .badContinuation 1
  else if first < 0xF5 then
    match rest with
    | [] => .fault .ended 1
    | [b] => if isSecond first b then .fault .ended 2 else .fault .badContinuation 1
    | b :: c :: more =>
      if !isSecond first b then .fault .badContinuation 1
      else if !isContinuation c then .fault .badContinuation 2
      else if first < 0xF0 then .char (join (first % 16) [b, c]) 3
      else match more with
        | [] => .fault .ended 3
        | d :: _ =>
          if isContinuation d then .char (join (first % 8) [b, c, d]) 4 else .fault .badContinuation 3
  else .fault .badStart 1

/-- Where bytes are not UTF-8. -/
structure Fault where
  reason : Reason
  first : Nat
  start : Nat
  count : Nat
deriving DecidableEq, Repr

/-- The characters of bytes that begin at `position`; `skip` of them belong to the character
before. -/
def decodeFrom (position skip : Nat) : List Nat → Except Fault (List Char)
  | [] => .ok []
  | b :: rest =>
    match skip with
    | skip + 1 => decodeFrom (position + 1) skip rest
    | 0 =>
      match step b rest with
      | .char c count => (decodeFrom (position + 1) (count - 1) rest).map (c :: ·)
      | .fault reason count => .error ⟨reason, b, position, count⟩

/-- The characters of bytes. -/
def decode (bytes : List Nat) : Except Fault (List Char) :=
  decodeFrom 0 0 bytes

/-- The characters of bytes, with a replacement character for each fault. -/
def decodeLossy (skip : Nat) : List Nat → List Char
  | [] => []
  | b :: rest =>
    match skip with
    | skip + 1 => decodeLossy skip rest
    | 0 =>
      match step b rest with
      | .char c count => c :: decodeLossy (count - 1) rest
      | .fault _ count => '\uFFFD' :: decodeLossy (count - 1) rest

/-- The bytes of a text. -/
def encode (cs : List Char) : List Nat :=
  (String.ofList cs).toUTF8.toList.map UInt8.toNat

end Earley.Text.Utf8
