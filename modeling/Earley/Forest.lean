import Earley.Chart
import Earley.Tree
import Std.Data.HashMap

namespace Earley.Forest

/-- The bound on trees where none is given. -/
def defaultLimit : Nat := 100

/-- References of a chart that lead nowhere. -/
inductive Fault where
  | noItem
  | noSymbol
deriving DecidableEq, Repr

def Fault.message : Fault → String
  | .noItem => "list index out of range"
  | .noSymbol => "tuple index out of range"

/-- The children found for the symbols before a dot, where they end, and their canonical form. -/
structure Partial where
  children : List Tree
  stop : Int
  key : String

/-- A partial derivation with one more child. -/
def Partial.extend (p : Partial) (child : Tree) (key : String) : Partial :=
  ⟨p.children ++ [child], child.span.2, if p.key.isEmpty then key else p.key ++ " " ++ key⟩

/-- A tree with its canonical form. -/
structure Keyed where
  tree : Tree
  key : String

/-- A complete item's derivations as trees. -/
def Partial.close (item : Item) (p : Partial) : Keyed :=
  ⟨.branch item.rule.lhs p.children (item.origin, p.stop), Tree.branchKey item.rule.lhs p.key⟩

/-- Adds a child to a partial derivation and keeps the result, unless there are `limit` already or
one of its structure. -/
def keep (limit : Nat) (found : Array Partial) (p : Partial) (child : Keyed) : Array Partial :=
  if limit ≤ found.size then found
  else
    let q := p.extend child.tree child.key
    if found.any (·.key == q.key) then found else found.push q

/-- Keeps the extensions of each partial derivation by each child that begins where it ends. -/
def keepAll (limit : Nat) (children : Partial → List Keyed) :
    List Partial → Array Partial → Array Partial
  | [], found => found
  | p :: rest, found =>
    if limit ≤ found.size then found
    else keepAll limit children rest
      (((children p).filter (·.tree.span.1 == p.stop)).foldl (keep limit · p ·) found)

/-- The leaf over a word after a partial derivation. -/
def leafAfter (symbol : Symbol) (edge : Edge) (p : Partial) : Keyed :=
  ⟨.leaf symbol edge.word (p.stop, p.stop + 1) edge.reading,
    Tree.leafKey symbol (Tree.shownWord edge.word)⟩

/-- What an expansion gives: partial derivations, and whether an item was cut off below. -/
abbrev Expansion := List Partial × Bool

/-- The same for a complete item, with its derivations closed to trees. -/
abbrev Closed := List Keyed × Bool

section

variable {m : Type → Type} [Monad m] [MonadExceptOf Fault m]

/-- The item with a given number. -/
def itemOf (c : Chart) (id : Int) : m Item :=
  match c.item? id with
  | some item => pure item
  | none => throw .noItem

/-- Follows the edges of an item backwards, one after the other; `expand` gives the expansion of the
items they come from, and `close` the trees of the complete ones that they go over. Every list is
bounded, and of equal structures the first is kept. -/
def followEdges (c : Chart) (limit : Nat) (expand : Item → m Expansion) (close : Item → m Closed)
    (item : Item) : List Edge → Array Partial → Bool → m Expansion
  | [], found, cut => pure (found.toList, cut)
  | edge :: rest, found, cut =>
    if limit ≤ found.size then pure (found.toList, cut)
    else do
      let previous ← itemOf c edge.previous
      let (before, cutBefore) ← expand previous
      match edge.child with
      | none =>
        match item.symbolAt? (item.dot - 1) with
        | none => throw .noSymbol
        | some symbol =>
          followEdges c limit expand close item rest
            (keepAll limit (fun p => [leafAfter symbol edge p]) before found) (cut || cutBefore)
      | some id =>
        let child ← itemOf c id
        let (inside, cutInside) ← close child
        followEdges c limit expand close item rest
          (keepAll limit (fun _ => inside) before found) (cut || cutBefore || cutInside)

/-- The trees of a complete item, out of its expansion. -/
def closePlain (expand : Item → m Expansion) (item : Item) : m Closed := do
  let (found, cut) ← expand item
  pure (found.map (Partial.close item), cut)

end

/-- The only derivation of nothing. -/
def start (item : Item) : Partial := ⟨[], item.origin, ""⟩

/-- The expansion of an item below the items of `path`. An item that is met again while it is being
expanded gives nothing. The path grows by a new item with each call, so the count of items is enough
fuel. -/
def expand (c : Chart) (limit : Nat) : (fuel : Nat) → (path : List Nat) → Item → Except Fault Expansion
  | 0, _, _ => pure ([], true)
  | fuel + 1, path, item =>
    if path.contains item.id then pure ([], true)
    else if item.dot = 0 then pure ([start item], false)
    else
      let below := expand c limit fuel (item.id :: path)
      followEdges c limit below (closePlain below) item (c.edgesOf item.id) #[] false

/-- What was found on no particular path, by the number of the item: expansions, and the trees that
complete items made of theirs. Where an item was cut off below, what was found depends on the path that
led there, and is not remembered. -/
structure Memo where
  partials : Std.HashMap Nat (List Partial) := ∅
  trees : Std.HashMap Nat (List Keyed) := ∅

namespace Memo

def keepPartials (memo : Memo) (id : Nat) (found : List Partial) : Memo :=
  { memo with partials := memo.partials.insert id found }

def keepTrees (memo : Memo) (id : Nat) (found : List Keyed) : Memo :=
  { memo with trees := memo.trees.insert id found }

end Memo

/-- The trees of a complete item, with what is remembered of trees put to use and added to. -/
def closeMemo (expand : Item → StateT Memo (Except Fault) Expansion) (item : Item) :
    StateT Memo (Except Fault) Closed := do
  match (← get).trees[item.id]? with
  | some known => pure (known, false)
  | none =>
    let (found, cut) ← closePlain expand item
    unless cut do modify (·.keepTrees item.id found)
    pure (found, cut)

/-- The expansion of an item, with what is remembered put to use and added to. -/
def expandMemo (c : Chart) (limit : Nat) :
    (fuel : Nat) → (path : List Nat) → Item → StateT Memo (Except Fault) Expansion
  | 0, _, _ => pure ([], true)
  | fuel + 1, path, item => do
    match (← get).partials[item.id]? with
    | some known => pure (known, false)
    | none =>
      if path.contains item.id then pure ([], true)
      else if item.dot = 0 then pure ([start item], false)
      else
        let below := expandMemo c limit fuel (item.id :: path)
        let (found, cut) ←
          followEdges c limit below (closeMemo below) item (c.edgesOf item.id) #[] false
        unless cut do modify (·.keepPartials item.id found)
        pure (found, cut)

/-- Enough fuel for any path. -/
def fuelFor (c : Chart) : Nat := c.items.size + 2

/-- A tree for a whole sentence, with the weight of the rule at its root. -/
structure Parse where
  root : Tree
  sentence : List String
  weight : Option Weight

/-- Trees found so far, and their canonical forms. -/
structure Harvest where
  parses : Array Parse := #[]
  keys : Array String := #[]

/-- Takes trees until there are `limit`, leaving out structures that were seen. The second value
tells whether the limit was met. -/
def Harvest.take (limit : Nat) (sentence : List String) (weight : Weight) (h : Harvest) :
    List Keyed → Harvest × Bool
  | [] => (h, false)
  | k :: rest =>
    if h.keys.contains k.key then Harvest.take limit sentence weight h rest
    else
      let h : Harvest := ⟨h.parses.push ⟨k.tree, sentence, some weight⟩, h.keys.push k.key⟩
      if limit ≤ h.parses.size then (h, true) else Harvest.take limit sentence weight h rest

section

variable {m : Type → Type} [Monad m]

/-- The trees of complete items, item after item. -/
def harvestFrom (c : Chart) (limit : Nat) (close : Item → m Closed) :
    List Item → Harvest → m (List Parse)
  | [], h => pure h.parses.toList
  | item :: rest, h => do
    let (found, _) ← close item
    match h.take limit c.tokens item.rule.weight found with
    | (h, true) => pure h.parses.toList
    | (h, false) => harvestFrom c limit close rest h

end

/-- All trees for `symbol` over the whole input, up to `limit`, with nothing remembered. -/
def extractPlain (c : Chart) (limit : Nat) (symbol : Symbol) : Except Fault (List Parse) :=
  harvestFrom c limit (closePlain (expand c limit (fuelFor c) [])) (c.completed symbol) {}

/-- The same trees; what is remembered may serve later calls on the same chart and limit. -/
def extractMemo (c : Chart) (limit : Nat) (symbol : Symbol) :
    StateT Memo (Except Fault) (List Parse) :=
  harvestFrom c limit (closeMemo (expandMemo c limit (fuelFor c) [])) (c.completed symbol) {}

/-- All trees for `symbol` over the whole input, up to `limit`. -/
def extract (c : Chart) (limit : Nat) (symbol : Symbol) : Except Fault (List Parse) :=
  (extractMemo c limit symbol).run' {}

end Earley.Forest
