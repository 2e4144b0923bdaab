import Earley.Symbol
import Earley.Weight

namespace Earley

/-- A rule: `lhs` expands to the symbols of `rhs`. The weight goes along with the trees and decides
nothing. -/
structure Rule where
  lhs : Symbol
  rhs : List Symbol
  weight : Weight := Binary64.one
deriving DecidableEq, Repr

namespace Rule

/-- The rule without its weight. -/
def text (r : Rule) : String :=
  r.lhs ++ " -> " ++ " ".intercalate r.rhs

/-- Equality as a value: weights compare as numbers. -/
def same (r q : Rule) : Bool :=
  r.lhs == q.lhs && r.rhs == q.rhs && r.weight.same q.weight

/-- Why a rule is refused. -/
inductive Fault where
  | notCategory (lhs : Symbol)
  | emptyRhs (lhs : Symbol)
  | badWeight (fault : Weight.Fault)
deriving DecidableEq, Repr

def Fault.message : Fault → String
  | .notCategory lhs => "left-hand side must be a non-terminal, got " ++ Text.quoted lhs
  | .emptyRhs lhs => "rule for " ++ lhs ++ " has an empty right-hand side"
  | .badWeight fault => fault.message

end Rule

end Earley
