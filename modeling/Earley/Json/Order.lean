import Earley.Json

namespace Earley.Json

/-- A number for comparison. -/
inductive Number where
  | exact (units : Int)
  | infinite (negative : Bool)
  | nan
deriving DecidableEq, Repr

namespace Number

def less : Number → Number → Bool
  | .exact a, .exact b => a < b
  | .exact _, .infinite negative => !negative
  | .infinite negative, .exact _ => negative
  | .infinite a, .infinite b => a && !b
  | _, _ => false

end Number

/-- The number that a value stands for, in units of binary64. -/
def number? : Json → Option Number
  | .bool b => some (.exact (if b then Binary64.unitsPerOne else 0))
  | .int n => some (.exact (n * Binary64.unitsPerOne))
  | .float (.finite negative rank) =>
    let size : Int := Binary64.units rank
    some (.exact (if negative then -size else size))
  | .float (.infinite negative) => some (.infinite negative)
  | .float .nan => some .nan
  | _ => none

mutual

/-- Whether two values are equal, as parts of others: the value that is no number is equal to
itself, and the members of an object have no order. -/
def same : Json → Json → Bool
  | .null, .null => true
  | .string a, .string b => a == b
  | .halved a, .halved b => a == b
  | .array xs, .array ys => sameElements xs ys
  | .object ms, .object ns => ms.length == ns.length && sameMembers ns ms
  | .halvedObject ms, .halvedObject ns => ms.length == ns.length && sameHalved ns ms
  | a, b => match number? a, number? b with
    | some m, some n => m == n
    | _, _ => false

def sameElements : List Json → List Json → Bool
  | [], [] => true
  | x :: xs, y :: ys => same x y && sameElements xs ys
  | _, _ => false

def sameMembers (others : List (String × Json)) : List (String × Json) → Bool
  | [] => true
  | (name, x) :: rest =>
    (match member? others name with
      | some y => same x y
      | none => false) && sameMembers others rest

def sameHalved (others : List (AnyText × Json)) : List (AnyText × Json) → Bool
  | [] => true
  | (name, x) :: rest =>
    (match others.find? (·.1 == name) with
      | some (_, y) => same x y
      | none => false) && sameHalved others rest

end

/-- Two values without an order between them. -/
structure Clash where
  left : Json
  right : Json

mutual

/-- Whether the first of two values comes before the second. Numbers are compared by their value, truth
values among them; texts by their characters; lists by their first elements that are not the same. All
other values have no order. -/
def less? : Json → Json → Except Clash Bool
  | .array xs, .array ys => lessElements? xs ys
  | a, b => match number? a, number? b, text? a, text? b with
    | some m, some n, _, _ => .ok (m.less n)
    | _, _, some s, some t => .ok (s.codes < t.codes)
    | _, _, _, _ => .error ⟨a, b⟩

def lessElements? : List Json → List Json → Except Clash Bool
  | [], ys => .ok (!ys.isEmpty)
  | _ :: _, [] => .ok false
  | x :: xs, y :: ys => if same x y then lessElements? xs ys else less? x y

end

end Earley.Json
