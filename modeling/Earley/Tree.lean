import Earley.Decimal.Numeral
import Earley.Lexicon
import Earley.Symbol

namespace Earley

/-- Parse trees. A node without children is a leaf and may carry a word with the reading that let it in;
a span counts tokens, from its start to before its end. -/
inductive Tree where
  | node (symbol : Symbol) (children : List Tree) (word : Option String) (span : Int × Int)
    (reading : Option Reading)
deriving Inhabited

namespace Tree

def symbol : Tree → Symbol
  | .node s _ _ _ _ => s

def children : Tree → List Tree
  | .node _ cs _ _ _ => cs

def word : Tree → Option String
  | .node _ _ w _ _ => w

def span : Tree → Int × Int
  | .node _ _ _ sp _ => sp

def reading : Tree → Option Reading
  | .node _ _ _ _ r => r

/-- A leaf over one word. -/
def leaf (s : Symbol) (word : Option String) (span : Int × Int) (reading : Option Reading) : Tree :=
  .node s [] word span reading

/-- A node over its children. -/
def branch (s : Symbol) (children : List Tree) (span : Int × Int) : Tree :=
  .node s children none span none

def isLeaf (t : Tree) : Bool := t.children.isEmpty

mutual

/-- The leaves that carry a word, from left to right. -/
def leaves : Tree → List Tree
  | .node s [] (some w) sp r => [.node s [] (some w) sp r]
  | .node _ [] none _ _ => []
  | .node _ (c :: cs) _ _ _ => leaves c ++ leavesOfAll cs

def leavesOfAll : List Tree → List Tree
  | [] => []
  | t :: rest => leaves t ++ leavesOfAll rest

end

mutual

/-- The node itself and then all nodes below it, each before its children. -/
def walk : Tree → List Tree
  | .node s cs w sp r => .node s cs w sp r :: walkAll cs

def walkAll : List Tree → List Tree
  | [] => []
  | t :: rest => walk t ++ walkAll rest

end

mutual

/-- Equality as a value: the readings of leaves take no part in it. -/
def same : Tree → Tree → Bool
  | .node s cs w sp _, .node s' cs' w' sp' _ =>
    s == s' && w == w' && sp == sp' && sameAll cs cs'

def sameAll : List Tree → List Tree → Bool
  | [], [] => true
  | t :: rest, t' :: rest' => same t t' && sameAll rest rest'
  | _, _ => false

end

/-- The canonical form of a leaf. -/
def leafKey (s : Symbol) (word : String) : String :=
  "(" ++ s ++ " \"" ++ word ++ "\")"

/-- The canonical form of a node over the canonical forms of its children. -/
def branchKey (s : Symbol) (children : String) : String :=
  "(" ++ s ++ " " ++ children ++ ")"

mutual

/-- The canonical form, by which equal structures are recognised. Spans and readings are not part
of it. -/
def canonical : Tree → String
  | .node s [] word _ _ => leafKey s (word.getD "")
  | .node s (c :: cs) _ _ _ => branchKey s (canonical c ++ canonicalRest cs)

def canonicalRest : List Tree → String
  | [] => ""
  | t :: rest => " " ++ canonical t ++ canonicalRest rest

end

/-- How a missing word is shown. -/
def shownWord : Option String → String
  | some w => w
  | none => "None"

mutual

/-- The form for display: `[S [NP [DET the] [N dog]] [VP [V ran]]]`. -/
def bracketed : Tree → String
  | .node s [] word _ _ => "[" ++ s ++ " " ++ shownWord word ++ "]"
  | .node s (c :: cs) _ _ _ => "[" ++ s ++ " " ++ bracketed c ++ bracketedRest cs ++ "]"

def bracketedRest : List Tree → String
  | [] => ""
  | t :: rest => " " ++ bracketed t ++ bracketedRest rest

end

/-- Two spaces for each level; levels below zero have none. -/
def indentation (depth : Int) : String :=
  String.ofList (List.replicate (2 * depth.toNat) ' ')

mutual

/-- The form with one node per line. -/
def indented (depth : Int) : Tree → String
  | .node s [] word _ _ => indentation depth ++ s ++ ": " ++ shownWord word
  | .node s (c :: cs) _ (start, stop) _ =>
    indentation depth ++ s ++ " [" ++ Decimal.integerText start ++ ":" ++ Decimal.integerText stop ++ "]" ++
      indentedAll (depth + 1) (c :: cs)

def indentedAll (depth : Int) : List Tree → String
  | [] => ""
  | t :: rest => "\n" ++ indented depth t ++ indentedAll depth rest

end

end Tree

end Earley
