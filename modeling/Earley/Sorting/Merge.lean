import Earley.Sorting.Search

namespace Earley.Sorting

variable {α ε : Type}

/-- How values are taken: one by one, after so many wins of either list in a row, or in blocks. -/
inductive Turn where
  | singly (first second : Nat)
  | inBlocks
deriving DecidableEq, Repr

/-- Blocks of this size are worth looking for. -/
def goodBlock : Nat := 7

/-- The turn after a win of the first list. -/
def Turn.afterFirst (eager wins : Nat) : Turn :=
  if eager ≤ wins + 1 then .inBlocks else .singly (wins + 1) 0

/-- The turn after a win of the second list. -/
def Turn.afterSecond (eager wins : Nat) : Turn :=
  if eager ≤ wins + 1 then .inBlocks else .singly 0 (wins + 1)

/-- The turn after two blocks, and how many wins in a row lead to blocks from then on. -/
def Turn.afterBlocks (eager first second : Nat) : Turn × Nat :=
  if goodBlock ≤ first || goodBlock ≤ second then (.inBlocks, max (eager - 1) 1)
  else (.singly 0 0, eager + 1)

/-- Merges from the front. The last value of the first list is known to be the last of all. `eager`
wins in a row lead to blocks; the second value is what this count has become. Each call but the last
takes a value, so the length of both lists is enough `fuel`. -/
def mergeForward (less : α → α → Except ε Bool) :
    Nat → Turn → Nat → List α → List α → Except ε (List α × Nat)
  | 0, _, eager, xs, ys => .ok (xs ++ ys, eager)
  | fuel + 1, turn, eager, xs, ys =>
    match xs, ys with
    | [], ys => .ok (ys, eager)
    | xs, [] => .ok (xs, eager)
    | [x], ys => .ok (ys ++ [x], eager)
    | x :: xs, y :: ys => match turn with
      | .singly first second => do
        if ← less y x then
          let turn := Turn.afterSecond eager second
          let (merged, eager) ← mergeForward less fuel turn eager (x :: xs) ys
          .ok (y :: merged, eager)
        else
          let turn := Turn.afterFirst eager first
          let (merged, eager) ← mergeForward less fuel turn eager xs (y :: ys)
          .ok (x :: merged, eager)
      | .inBlocks => do
        let first ← countFront (fun z => (less y z).map (!·)) (x :: xs)
        let block := (x :: xs).take first
        match (x :: xs).drop first with
        | [] => .ok (block ++ y :: ys, eager)
        | [z] => .ok (block ++ y :: ys ++ [z], eager)
        | z :: zs =>
          if ys.isEmpty then .ok (block ++ y :: z :: zs, eager)
          else
            let second ← countFront (fun w => less w z) ys
            let front := block ++ y :: ys.take second
            let rest := ys.drop second
            if rest.isEmpty then .ok (front ++ z :: zs, eager)
            else if zs.length ≤ 1 then .ok (front ++ z :: rest ++ zs, eager)
            else
              let (turn, eager) := Turn.afterBlocks eager first second
              let (merged, eager) ← mergeForward less fuel turn eager zs rest
              .ok (front ++ z :: merged, eager)

/-- Merges from the back: both lists are given with their last values first, and `done` is what was
merged so far. The first value of the second list is known to be the first of all. -/
def mergeBackward (less : α → α → Except ε Bool) :
    Nat → Turn → Nat → List α → List α → List α → Except ε (List α × Nat)
  | 0, _, eager, xs, ys, done => .ok (xs.reverse ++ ys.reverse ++ done, eager)
  | fuel + 1, turn, eager, xs, ys, done =>
    match xs, ys with
    | [], ys => .ok (ys.reverse ++ done, eager)
    | xs, [] => .ok (xs.reverse ++ done, eager)
    | xs, [y] => .ok (y :: xs.reverse ++ done, eager)
    | x :: xs, y :: ys => match turn with
      | .singly first second => do
        if ← less y x then
          mergeBackward less fuel (Turn.afterFirst eager first) eager xs (y :: ys) (x :: done)
        else
          mergeBackward less fuel (Turn.afterSecond eager second) eager (x :: xs) ys (y :: done)
      | .inBlocks => do
        let kept ← countBack (fun z => (less y z).map (!·)) (x :: xs).reverse
        let first := xs.length + 1 - kept
        let done := y :: ((x :: xs).take first).reverse ++ done
        match (x :: xs).drop first with
        | [] => .ok (ys.reverse ++ done, eager)
        | z :: zs =>
          if ys.length ≤ 1 then .ok (ys ++ (z :: zs).reverse ++ done, eager)
          else
            let kept ← countBack (fun w => less w z) ys.reverse
            let second := ys.length - kept
            let rest := ys.drop second
            let done := z :: (ys.take second).reverse ++ done
            if rest.length ≤ 1 then .ok (rest ++ zs.reverse ++ done, eager)
            else if zs.isEmpty then .ok (rest.reverse ++ done, eager)
            else
              let (turn, eager) := Turn.afterBlocks eager first second
              mergeBackward less fuel turn eager zs rest done

/-- Merges two neighbouring sorted lists. What is in place already at either end stays there; of what is
between, the shorter list decides from where it is merged. Values are taken one by one until one list
has won so often in a row that whole blocks of it are looked for. Of equal values those of the first
list come first. -/
def merge (less : α → α → Except ε Bool) (eager : Nat) (xs ys : List α) :
    Except ε (List α × Nat) :=
  match ys with
  | [] => .ok (xs, eager)
  | y :: _ => do
    let first ← countFront (fun z => (less y z).map (!·)) xs
    let front := xs.take first
    let xs := xs.drop first
    match xs.getLast? with
    | none => .ok (front ++ ys, eager)
    | some x =>
      let second ← countBack (fun w => less w x) ys
      let back := ys.drop second
      match ys.take second with
      | [] => .ok (front ++ xs ++ back, eager)
      | y :: ys =>
        let fuel := xs.length + ys.length + 1
        if xs.length ≤ ys.length + 1 then
          let (merged, eager) ← mergeForward less fuel (.singly 0 0) eager xs ys
          .ok (front ++ y :: merged ++ back, eager)
        else
          let (merged, eager) ←
            mergeBackward less fuel (.singly 0 0) eager xs.reverse.tail (y :: ys).reverse [x]
          .ok (front ++ merged ++ back, eager)

end Earley.Sorting
