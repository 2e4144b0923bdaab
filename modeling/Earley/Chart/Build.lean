import Earley.Chart
import Earley.Grammar

namespace Earley.Chart

/-- Adds the rules for `symbol`, to begin in column `pos`. -/
def predict (g : Grammar) (pos : Nat) (symbol : Symbol) (c : Chart) : Chart :=
  (g.rulesFor symbol).foldl (fun c rule => (c.insert pos rule 0 pos).2) c

/-- Moves an item over a symbol into column `pos`, and notes the edge. -/
def advance (pos : Nat) (item : Item) (edge : Edge) (c : Chart) : Chart :=
  let (next, c) := c.insert pos item.rule (item.dot + 1) item.origin
  c.addEdge next.id edge

/-- Moves an item over the word before column `pos`, once for each reading that is tagged `tag`. -/
def scan (pos : Nat) (word : String) (readings : List Reading) (item : Item) (tag : Symbol)
    (c : Chart) : Chart :=
  (readings.filter (·.pos == tag)).foldl
    (fun c reading => c.advance pos item { previous := item.id, word := some word, reading := some reading })
    c

/-- Moves the items that waited for `done` where it began. All of them are there: an item that is
complete has found at least one token, so its own column is a later one. -/
def complete (pos : Nat) (done : Item) (c : Chart) : Chart :=
  (c.column done.origin.toNat).foldl
    (fun c waiting =>
      if waiting.next? == some done.rule.lhs then
        c.advance pos waiting { previous := waiting.id, child := some done.id }
      else c)
    c

/-- What follows from one item of column `pos`, whose next word and its readings are given: an item that
expects a category predicts its rules, one that expects a tag reads the next word, and a complete one
advances the items that waited for it. -/
def process (g : Grammar) (next : Option (String × List Reading)) (pos : Nat) (item : Item)
    (c : Chart) : Chart :=
  match item.next? with
  | none => c.complete pos item
  | some symbol =>
    if symbol.isCategory then c.predict g pos symbol
    else match next with
      | some (word, readings) => c.scan (pos + 1) word readings item symbol
      | none => c

/-- Walks column `pos` from its `i`-th item on. A column has fewer items than `fuel`. -/
def walkColumn (g : Grammar) (next : Option (String × List Reading)) (pos : Nat) :
    (fuel i : Nat) → Chart → Chart
  | 0, _, c => c
  | fuel + 1, i, c =>
    match (c.column pos)[i]? with
    | none => c
    | some item => walkColumn g next pos fuel (i + 1) (c.process g next pos item)

/-- More than the count of items that column `pos` can hold: an origin, a rule and a dot, for which
a rule has one place more than its right side has symbols. -/
def columnBound (g : Grammar) (pos : Nat) : Nat :=
  (pos + 1) * (g.rules.flatMap fun r => r.lhs :: r.rhs).length + 1

/-- Walks one whole column. -/
def fillColumn (g : Grammar) (lex : Lexicon) (c : Chart) (pos : Nat) : Chart :=
  let next := c.tokens[pos]?.map fun word => (word, lex.lookup word)
  c.walkColumn g next pos (columnBound g pos) 0

/-- The chart of a sentence. The columns are walked from left to right, and each from its first item to
its last, while it grows. -/
def build (g : Grammar) (lex : Lexicon) (tokens : List String) : Chart :=
  let seeded := (empty tokens).predict g 0 Symbol.start
  (List.range (tokens.length + 1)).foldl (fillColumn g lex) seeded

end Earley.Chart
