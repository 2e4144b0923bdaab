import Earley.Decimal.Numeral
import Earley.Lexicon
import Earley.Rule

namespace Earley

/-- The place that `i` names among `size` places; below zero it counts from the end. -/
def place? (size : Nat) (i : Int) : Option Nat :=
  if 0 ≤ i then (if i < size then some i.toNat else none)
  else if 0 ≤ i + size then some (i + size).toNat else none

/-- A rule of which the symbols before the dot have been found, from column `origin` on. -/
structure Item where
  rule : Rule
  dot : Int
  origin : Int
  id : Nat
deriving DecidableEq, Repr

/-- What tells an item from the others of its column; the weight of its rule does not count. -/
structure Item.Key where
  dot : Int
  origin : Int
  lhs : Symbol
  rhs : List Symbol
deriving DecidableEq, Repr

/-- The key of the items that are the rule with a given dot and origin. -/
def Rule.key (rule : Rule) (dot origin : Int) : Item.Key :=
  ⟨dot, origin, rule.lhs, rule.rhs⟩

namespace Item

def key (item : Item) : Key :=
  item.rule.key item.dot item.origin

/-- Whether nothing of the rule is left to find. -/
def isComplete (item : Item) : Bool :=
  item.rule.rhs.length ≤ item.dot

/-- The symbol that `dot` stands before. -/
def symbolAt? (item : Item) (dot : Int) : Option Symbol :=
  (place? item.rule.rhs.length dot).bind fun i => item.rule.rhs[i]?

/-- The symbol that is to be found next; a complete item has none. -/
def next? (item : Item) : Option Symbol :=
  if item.isComplete then none else item.symbolAt? item.dot

/-- The right-hand side with the dot in it; a dot past either end stands at that end. -/
def dotted (item : Item) : List String :=
  let rhs := item.rule.rhs
  let found := if 0 ≤ item.dot then item.dot.toNat else (item.dot + rhs.length).toNat
  rhs.take found ++ "." :: rhs.drop found

/-- The item for display: `NP -> DET . N  @3 #7` began in column 3 and has number 7. -/
def text (item : Item) : String :=
  item.rule.lhs ++ " -> " ++ " ".intercalate item.dotted ++ "  @" ++
    Decimal.integerText item.origin ++ " #" ++ Decimal.integerText item.id

/-- Whether the item is the given rule with the given dot and origin; weights do not count. -/
def isAt (item : Item) (rule : Rule) (dot origin : Int) : Bool :=
  item.dot == dot && item.origin == origin && item.rule.lhs == rule.lhs &&
    item.rule.rhs == rule.rhs

end Item

/-- One way in which an item was reached from the item `previous`: over a complete item `child`, or,
if there is none, over a word. -/
structure Edge where
  previous : Int
  child : Option Int := none
  word : Option String := none
  reading : Option Reading := none
deriving DecidableEq, Repr

def Edge.isLeaf (e : Edge) : Bool := e.child.isNone

/-- Items by number, in order of creation; the columns they stand in, the index of each column, and
edges by the numbers of their items. Column `k` holds the items whose dot stands after the first `k`
tokens, and its index finds them by what tells them apart. -/
structure Chart where
  tokens : List String
  columns : Array (Array Item)
  index : Array (List (Item.Key × Item))
  items : Array Item := #[]
  edges : Array (Array Edge) := #[]

namespace Chart

/-- The chart with an empty column before, between and after the tokens. -/
def empty (tokens : List String) : Chart :=
  { tokens
    columns := Array.replicate (tokens.length + 1) #[]
    index := Array.replicate (tokens.length + 1) [] }

/-- The items of a column. -/
def column (c : Chart) (pos : Nat) : Array Item :=
  c.columns.getD pos #[]

/-- The items of a column by their keys, the latest first. -/
def entries (c : Chart) (pos : Nat) : List (Item.Key × Item) :=
  c.index.getD pos []

/-- The item of a column with the given rule, dot and origin, which is created if it is not there. -/
def insert (c : Chart) (pos : Nat) (rule : Rule) (dot origin : Int) : Item × Chart :=
  match (c.entries pos).lookup (rule.key dot origin) with
  | some item => (item, c)
  | none =>
    let item : Item := ⟨rule, dot, origin, c.items.size⟩
    (item, { c with
      columns := c.columns.modify pos (·.push item)
      index := c.index.modify pos ((item.key, item) :: ·)
      items := c.items.push item
      edges := c.edges.rightpad (c.items.size + 1) #[] })

/-- Inserts into the column that `pos` names, if there is one. -/
def insert? (c : Chart) (pos : Int) (rule : Rule) (dot origin : Int) : Option (Item × Chart) :=
  (place? c.columns.size pos).map fun k => c.insert k rule dot origin

/-- Adds an edge behind the others of an item, whether or not its number is one of the chart. -/
def addEdge (c : Chart) (id : Nat) (edge : Edge) : Chart :=
  { c with edges := (c.edges.rightpad (id + 1) #[]).modify id (·.push edge) }

/-- The edges of an item, in order of addition. -/
def edgesOf (c : Chart) (id : Nat) : List Edge :=
  (c.edges.getD id #[]).toList

/-- The item with a given number. -/
def item? (c : Chart) (id : Int) : Option Item :=
  (place? c.items.size id).bind fun i => c.items[i]?

/-- The items of the last column that find `symbol` in the whole input. -/
def completed (c : Chart) (symbol : Symbol) : List Item :=
  (c.column (c.columns.size - 1)).toList.filter fun item =>
    item.rule.lhs == symbol && item.isComplete && item.origin == 0

end Chart

end Earley
