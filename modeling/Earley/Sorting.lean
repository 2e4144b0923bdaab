import Earley.Sorting.Merge

namespace Earley.Sorting

variable {α ε : Type}

/-- Puts a value behind all ascending ones that it does not come before. -/
def insert (less : α → α → Except ε Bool) (x : α) (sorted : List α) : Except ε (List α) := do
  let place ← bisect (fun y => (less x y).map (!·)) sorted 0 sorted.length
  .ok (sorted.take place ++ x :: sorted.drop place)

/-- The values in front that go on falling, or on not falling, from the last one. -/
def takeRun (less : α → α → Except ε Bool) (falling : Bool) (last : α) :
    List α → Except ε (List α × List α)
  | [] => .ok ([], [])
  | x :: rest => do
    if (← less x last) == falling then
      let (run, more) ← takeRun less falling x rest
      .ok (x :: run, more)
    else .ok ([], x :: rest)

/-- The ascending run in front, and what follows it. A falling run is turned around. -/
def firstRun (less : α → α → Except ε Bool) : List α → Except ε (List α × List α)
  | a :: b :: rest => do
    let falling ← less b a
    let (run, more) ← takeRun less falling b rest
    .ok (if falling then (a :: b :: run).reverse else a :: b :: run, more)
  | few => .ok (few, [])

/-- The least length of a run among `n` values: `n` halved until it is below 64, and one more if
something was left over. -/
def leastRun (n left : Nat) : Nat :=
  if 64 ≤ n then leastRun (n / 2) (max left (n % 2)) else n + left
termination_by n

/-- A sorted run, and the power of the border behind it: how often the whole must be halved until a
cut falls between the middles of the runs on both sides. -/
structure Run (α : Type) where
  values : List α
  power : Nat := 0

/-- How often a whole must be halved until a cut falls between two places in it. All three are in
the same unit, and `fuel` bounds the count. -/
def cutsBetween (whole : Nat) : Nat → Nat → Nat → Nat
  | 0, _, _ => 0
  | fuel + 1, a, b =>
    if whole ≤ a then cutsBetween whole fuel (2 * (a - whole)) (2 * (b - whole)) + 1
    else if whole ≤ b then 1
    else cutsBetween whole fuel (2 * a) (2 * b) + 1

/-- The power of the border between two runs, of which the first has `start` values before it. -/
def borderPower (whole start first second : Nat) : Nat :=
  let middle := 2 * start + first
  cutsBetween whole whole middle (middle + first + second)

/-- Merges the last runs as long as the border between them is stronger than a new one. Runs stand
with the last one first. -/
def settle (less : α → α → Except ε Bool) (power eager : Nat) (runs : List (Run α)) :
    Except ε (List (Run α) × Nat) :=
  match runs with
  | last :: before :: rest =>
    if power < before.power then do
      let (values, eager) ← merge less eager before.values last.values
      settle less power eager (⟨values, power⟩ :: rest)
    else .ok ({ last with power } :: before :: rest, eager)
  | [last] => .ok ([{ last with power }], eager)
  | [] => .ok ([], eager)
termination_by runs.length

/-- Merges all runs from the last one on, the shorter neighbour of a run first. -/
def joinAll (less : α → α → Except ε Bool) (eager : Nat) (runs : List (Run α)) :
    Except ε (List α) :=
  match runs with
  | [] => .ok []
  | [run] => .ok run.values
  | [last, before] => (merge less eager before.values last.values).map Prod.fst
  | last :: before :: third :: rest =>
    if third.values.length < last.values.length then do
      let (values, eager) ← merge less eager third.values before.values
      joinAll less eager (last :: ⟨values, third.power⟩ :: rest)
    else do
      let (values, eager) ← merge less eager before.values last.values
      joinAll less eager (⟨values, before.power⟩ :: third :: rest)
termination_by runs.length

/-- Takes all runs of what is left. Each call takes at least one value, so their count is enough
`fuel`. -/
def takeRuns (less : α → α → Except ε Bool) (whole least : Nat) :
    Nat → Nat → List (Run α) → List α → Except ε (List α)
  | 0, eager, runs, _ => joinAll less eager runs
  | _ + 1, eager, runs, [] => joinAll less eager runs
  | fuel + 1, eager, runs, x :: rest => do
    let (run, more) ← firstRun less (x :: rest)
    let missing := least - run.length
    let run ← (more.take missing).foldlM (fun sorted y => insert less y sorted) run
    let left := more.drop missing
    let before := match runs with
      | last :: _ => last.values.length
      | [] => 0
    let start := whole - left.length - run.length - before
    let (runs, eager) ← settle less (borderPower whole start before run.length) eager runs
    takeRuns less whole least fuel eager (⟨run, 0⟩ :: runs) left

/-- The values in ascending order, by a comparison that may fail. Equal values keep their order. Which
two values are compared first decides about the failure, and where the comparison is no order, about the
result: runs are taken as they stand, short ones are made longer by putting values in their places by
halves, and neighbouring runs are merged by their places in the whole. -/
def ascending (less : α → α → Except ε Bool) (xs : List α) : Except ε (List α) :=
  takeRuns less xs.length (leastRun xs.length 0) xs.length goodBlock [] xs

/-- The values in descending order. -/
def descending (less : α → α → Except ε Bool) (xs : List α) : Except ε (List α) :=
  (ascending less xs.reverse).map List.reverse

end Earley.Sorting
