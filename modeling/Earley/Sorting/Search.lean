namespace Earley.Sorting

variable {α ε : Type}

/-- Whether the value at an index has the property. Past the end there is none that has it. -/
def ask (has : α → Except ε Bool) (xs : List α) (i : Nat) : Except ε Bool :=
  match xs[i]? with
  | some x => has x
  | none => .ok false

/-- The count of the values that have the property, if it is at least `low` and at most `high`. -/
def bisect (has : α → Except ε Bool) (xs : List α) (low high : Nat) : Except ε Nat :=
  if _h : low < high then do
    if ← ask has xs (low + (high - low) / 2) then
      bisect has xs (low + (high - low) / 2 + 1) high
    else bisect has xs low (low + (high - low) / 2)
  else .ok low
termination_by high - low

/-- Goes from `step` on in steps that double, as long as the question is answered with yes. Gives
the last step before the end and the first one behind it, which is at most `bound`. -/
def widen (question : Nat → Except ε Bool) (bound last step : Nat) : Except ε (Nat × Nat) :=
  if _h : step < bound then do
    if ← question step then widen question bound step (2 * step + 1) else .ok (last, step)
  else .ok (last, bound)
termination_by bound - step

/-- The count of the values that have the property, which the first values have and the others have not.
The questions may fail; they are asked from the front, in steps that grow, before the place is found by
halves. -/
def countFront (has : α → Except ε Bool) (xs : List α) : Except ε Nat := do
  if ← ask has xs 0 then
    let (last, step) ← widen (ask has xs) xs.length 0 1
    bisect has xs (last + 1) step
  else .ok 0

/-- The count of the values that have the property, looked for from the back. -/
def countBack (has : α → Except ε Bool) (xs : List α) : Except ε Nat := do
  let n := xs.length
  if ← ask has xs (n - 1) then .ok n
  else
    let lacks := fun i => (ask has xs (n - 1 - i)).map (!·)
    let (last, step) ← widen lacks n 0 1
    bisect has xs (n - step) (n - 1 - last)

end Earley.Sorting
