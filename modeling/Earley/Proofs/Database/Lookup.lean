import Earley.Database

namespace Earley

section Keyed

/-- What has another key is still found where all that has one key is left out. -/
theorem find?_filter_key {α β : Type} [DecidableEq β] (f : α → β) (xs : List α) (key other : β) :
    (xs.filter fun x => f x != key).find? (fun x => f x == other) =
      if other = key then none else xs.find? fun x => f x == other := by
  rw [List.find?_filter]
  split
  · next heq =>
    subst heq
    exact List.find?_eq_none.2 fun x _ => by simp
  · next hne =>
    congr 1
    funext x
    by_cases hx : f x = other <;> simp [hx, hne]

variable {α β : Type} [BEq α] [LawfulBEq α] {entries : List (α × β)} {key : α}

/-- An entry that was replaced is found with its new value. -/
theorem find?_replace_self (value : β) (h : entries.any (·.1 == key) = true) :
    (entries.map fun entry => if entry.1 == key then (key, value) else entry).find? (·.1 == key) =
      some (key, value) := by
  induction entries with
  | nil => cases h
  | cons entry rest ih =>
    rw [List.map_cons, List.find?_cons]
    by_cases hentry : (entry.1 == key) = true
    · rw [if_pos hentry, beq_self_eq_true]
    · rw [List.any_cons, Bool.or_eq_true_iff] at h
      rw [if_neg hentry, Bool.eq_false_iff.2 hentry, ih (h.resolve_left hentry)]

/-- Entries under other keys are found as they were. -/
theorem find?_replace_of_ne {other : α} (hne : other ≠ key) (value : β) (entries : List (α × β)) :
    (entries.map fun entry => if entry.1 == key then (key, value) else entry).find? (·.1 == other) =
      entries.find? (·.1 == other) := by
  induction entries with
  | nil => rfl
  | cons entry rest ih =>
    rw [List.map_cons, List.find?_cons, List.find?_cons, ih]
    by_cases hentry : (entry.1 == key) = true
    · have hother : (entry.1 == other) = false := by
        rw [eq_of_beq hentry]
        exact beq_false_of_ne hne.symm
      rw [if_pos hentry, beq_false_of_ne hne.symm, hother]
    · rw [if_neg hentry]

end Keyed

namespace Database

variable {db : Database}

/-- What is found under a key is an entry with that key. -/
theorem mem_of_get? {key : String} {value : Stored} (h : db.get? key = some value) :
    (key, value) ∈ db.entries := by
  obtain ⟨⟨found, value'⟩, hfind, rfl⟩ := Option.map_eq_some_iff.1 h
  have hkey := List.find?_some hfind
  obtain rfl : found = key := eq_of_beq hkey
  exact List.mem_of_find?_eq_some hfind

/-- A key is there exactly if something is found under it. -/
theorem has_eq_isSome (db : Database) (key : String) : db.has key = (db.get? key).isSome := by
  rw [has, get?, Option.isSome_map, List.isSome_find?]

/-- Nothing is found under a key that was erased, and all else is found as it was. -/
theorem get?_erase (db : Database) (key other : String) :
    (db.erase key).get? other = if other = key then none else db.get? other := by
  rw [erase, get?, get?, find?_filter_key]
  split <;> rfl

private theorem get?_put_self (db : Database) (key : String) (value : Stored) :
    (db.put key value).get? key = some value := by
  rw [put, get?]
  split
  · next hknown => rw [find?_replace_self value hknown]; rfl
  · next hnew =>
    have hnone : db.entries.find? (·.1 == key) = none :=
      List.find?_eq_none.2 fun entry hentry hsame => hnew (List.any_eq_true.2 ⟨entry, hentry, hsame⟩)
    simp [List.find?_append, hnone]

/-- What other keys hold stays. -/
theorem get?_put_of_ne {key other : String} (hne : other ≠ key) (value : Stored) :
    (db.put key value).get? other = db.get? other := by
  have hnew : (key == other) = false := beq_false_of_ne hne.symm
  rw [put, get?, get?]
  split
  · dsimp only
    rw [find?_replace_of_ne hne]
  · simp [List.find?_append, hnew]

/-- A value that was put is found under its key, and all else is found as it was. -/
theorem get?_put (db : Database) (key other : String) (value : Stored) :
    (db.put key value).get? other = if other = key then some value else db.get? other := by
  split
  · next heq => rw [heq, get?_put_self]
  · next hne => exact get?_put_of_ne hne value

/-- A list that was put, or left out because it is empty, changes nothing under other keys. -/
theorem get?_putList_of_ne {key other : String} (hne : other ≠ key) (elements : List String) :
    (db.putList key elements).get? other = db.get? other := by
  rw [putList]
  split
  · rw [get?_erase, if_neg hne]
  · exact get?_put_of_ne hne _

/-- What is put is found, though nothing is kept of a list without elements. -/
theorem list_putList (db : Database) (key : String) (elements : List String) :
    (db.putList key elements).list key = .ok elements := by
  rw [putList]
  split
  · next hempty => rw [list, get?_erase, if_pos rfl, List.isEmpty_iff.1 hempty]
  · rw [list, get?_put_self]

/-- What is found under a key decides what list it is read as. -/
theorem list_of_get?_eq {db' : Database} {key : String} (h : db.get? key = db'.get? key) :
    db.list key = db'.list key := by
  rw [list, list, h]

/-- Elements that are pushed stand behind those of the list. -/
theorem push_of_list {key : String} {elements : List String} (h : db.list key = .ok elements)
    (more : List String) : db.push key more = .ok (db.putList key (elements ++ more)) := by
  rw [push, h]
  rfl

/-- Taking an element out leaves the others in their order, and no other key is touched. -/
theorem remove_of_list {key : String} {elements : List String} (h : db.list key = .ok elements)
    (element : String) : ∃ after, db.remove key element = .ok after ∧
      after.list key = .ok (elements.filter (· != element)) ∧
      ∀ other, other ≠ key → after.get? other = db.get? other := by
  rw [remove, h]
  refine ⟨_, rfl, ?_⟩
  dsimp only
  split
  · exact ⟨list_putList db key _, fun other hne => get?_putList_of_ne hne _⟩
  · next habsent =>
    refine ⟨?_, fun _ _ => rfl⟩
    rw [h, List.filter_eq_self.2]
    intro other hother
    rw [bne_iff_ne]
    rintro rfl
    exact habsent (List.contains_iff_mem.2 hother)

/-- Exactly the keys that a pattern accepts are erased. -/
theorem get?_eraseMatching (db : Database) (pattern key : String) :
    (db.eraseMatching pattern).get? key =
      if Glob.accepts pattern.toList key.toList then none else db.get? key := by
  rw [eraseMatching, get?, get?, List.find?_filter]
  split
  · next haccepted =>
    rw [List.find?_eq_none.2]
    · rfl
    · intro entry _
      by_cases hentry : entry.1 = key <;> simp [hentry, haccepted]
  · next hrefused =>
    congr 2
    funext entry
    by_cases hentry : entry.1 = key <;> simp [hentry, hrefused]

end Database

end Earley
