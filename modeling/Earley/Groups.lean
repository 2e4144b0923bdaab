namespace Earley

/-- Elements by key. Keys stand in order of first use, the elements of a key in order of addition. -/
abbrev Groups (α : Type) := List (String × List α)

namespace Groups

variable {α : Type}

/-- Adds an element behind the others of its key; a new key comes behind the other keys. -/
def add (groups : Groups α) (key : String) (a : α) : Groups α :=
  match groups with
  | [] => [(key, [a])]
  | (k, as) :: rest => if k == key then (k, as ++ [a]) :: rest else (k, as) :: add rest key a

/-- The elements of a key. -/
def get (groups : Groups α) (key : String) : List α :=
  match groups with
  | [] => []
  | (k, as) :: rest => if k == key then as else get rest key

def keys (groups : Groups α) : List String :=
  groups.map Prod.fst

/-- The elements of a row, each added under its key. -/
def ofList (key : α → String) (as : List α) : Groups α :=
  as.foldl (fun groups a => groups.add (key a) a) []

/-- One more value at the end is put into the group of its key, or into a new group behind the others. -/
theorem ofList_append_singleton (key : α → String) (as : List α) (a : α) :
    ofList key (as ++ [a]) = (ofList key as).add (key a) a := by
  rw [ofList, List.foldl_append]
  rfl

end Groups

end Earley
