import Earley.Chart.Build
import Earley.Forest

namespace Earley

/-- The answer to a sentence: its trees, or what was wrong. -/
structure Outcome where
  input : List String
  trees : List Forest.Parse := []
  errors : Option (List String) := none

namespace Outcome

def isOk (o : Outcome) : Bool := !o.trees.isEmpty

end Outcome

/-- A grammar, a lexicon and a bound on the trees of an answer. -/
structure Parser where
  grammar : Grammar
  lexicon : Lexicon
  limit : Nat
  limit_pos : 0 < limit

namespace Parser

/-- A bound that admits no tree. -/
structure LimitFault where
  limit : Int
deriving DecidableEq, Repr

def LimitFault.message (f : LimitFault) : String :=
  "max_trees must be positive, got " ++ Decimal.integerText f.limit

/-- A parser with a given bound. -/
def withLimit (grammar : Grammar) (lexicon : Lexicon) (limit : Int) : Except LimitFault Parser :=
  if h : 0 < limit.toNat then .ok ⟨grammar, lexicon, limit.toNat, h⟩ else .error ⟨limit⟩

def emptyInput : String := "Empty input"

def noParse : String := "No valid parse found"

/-- Every distinct tree of a sentence, up to the bound. -/
def parse (p : Parser) (tokens : List String) : Except Forest.Fault Outcome :=
  if tokens.isEmpty then .ok { input := tokens, errors := some [emptyInput] }
  else
    (Forest.extract (Chart.build p.grammar p.lexicon tokens) p.limit Symbol.start).map fun trees =>
      { input := tokens, trees, errors := if trees.isEmpty then some [noParse] else none }

end Parser

end Earley
