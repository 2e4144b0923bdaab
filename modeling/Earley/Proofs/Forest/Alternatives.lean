import Earley.Forest
import Mathlib.Data.List.Nodup
import Mathlib.Tactic.Common

namespace Earley.Forest

section

variable {α κ : Type} [DecidableEq κ] {key : α → κ}

/-- The elements whose key no earlier element has. -/
def firstBy (key : α → κ) : List α → List α
  | [] => []
  | a :: rest => a :: (firstBy key rest).filter (key · ≠ key a)

/-- What is kept of a list was in it. -/
theorem mem_of_mem_firstBy {a : α} {l : List α} (h : a ∈ firstBy key l) : a ∈ l := by
  induction l with
  | nil => exact h
  | cons b rest ih =>
    rcases List.mem_cons.1 h with rfl | h
    · exact List.mem_cons_self
    · exact List.mem_cons_of_mem _ (ih (List.mem_filter.1 h).1)

/-- For every element of a list, one with its key is kept. -/
theorem exists_mem_firstBy {a : α} {l : List α} (h : a ∈ l) : ∃ b ∈ firstBy key l, key b = key a := by
  induction l with
  | nil => cases h
  | cons b rest ih =>
    by_cases heq : key b = key a
    · exact ⟨b, List.mem_cons_self, heq⟩
    · rcases List.mem_cons.1 h with rfl | h
      · exact absurd rfl heq
      · obtain ⟨b', hb', hkey⟩ := ih h
        refine ⟨b', List.mem_cons_of_mem _ (List.mem_filter.2 ⟨hb', ?_⟩), hkey⟩
        simpa [hkey] using Ne.symm heq

private theorem mem_map_firstBy {k : κ} {l : List α} : k ∈ (firstBy key l).map key ↔ k ∈ l.map key := by
  simp only [List.mem_map]
  constructor
  · rintro ⟨a, ha, rfl⟩
    exact ⟨a, mem_of_mem_firstBy ha, rfl⟩
  · rintro ⟨a, ha, rfl⟩
    exact exists_mem_firstBy ha

/-- Of a second list, only what has a new key is kept behind what is kept of the first. -/
theorem firstBy_append (l r : List α) : firstBy key (l ++ r) =
    firstBy key l ++ (firstBy key r).filter (key · ∉ l.map key) := by
  induction l with
  | nil => simp [firstBy]
  | cons a rest ih =>
    rw [List.cons_append, firstBy, firstBy, ih, List.filter_append, List.filter_filter,
      List.cons_append]
    simp [not_or]

/-- No key is kept twice. -/
theorem nodup_map_firstBy (l : List α) : ((firstBy key l).map key).Nodup := by
  induction l with
  | nil => exact List.nodup_nil
  | cons a rest ih =>
    rw [firstBy, List.map_cons, List.nodup_cons]
    refine ⟨?_, ih.sublist (List.filter_sublist.map key)⟩
    intro hmem
    obtain ⟨b, hb, heq⟩ := List.mem_map.1 hmem
    simpa [heq] using (List.mem_filter.1 hb).2

/-- A list without a key that comes twice is kept as it is. -/
theorem firstBy_eq_self {l : List α} (h : (l.map key).Nodup) : firstBy key l = l := by
  induction l with
  | nil => rfl
  | cons a rest ih =>
    rw [List.map_cons, List.nodup_cons] at h
    rw [firstBy, ih h.2, List.filter_eq_self.2]
    intro b hb
    have hne : key b ≠ key a := fun heq => h.1 (heq ▸ List.mem_map.2 ⟨b, hb, rfl⟩)
    simpa using hne

/-- Something is kept of every list that is not empty. -/
theorem firstBy_ne_nil {l : List α} (h : l ≠ []) : firstBy key l ≠ [] := by
  cases l with
  | nil => exact absurd rfl h
  | cons a rest => simp [firstBy]

/-- What one more element does to the first `limit` elements with different keys. -/
theorem take_firstBy_snoc (limit : Nat) (l : List α) (a : α) :
    (firstBy key (l ++ [a])).take limit =
      if limit ≤ ((firstBy key l).take limit).length ∨ key a ∈ ((firstBy key l).take limit).map key
      then (firstBy key l).take limit else (firstBy key l).take limit ++ [a] := by
  have hsnoc : firstBy key (l ++ [a]) =
      firstBy key l ++ if key a ∈ l.map key then [] else [a] := by
    rw [firstBy_append]
    by_cases hmem : key a ∈ l.map key
    · rw [if_pos hmem, firstBy, firstBy, List.filter_nil, List.filter_cons_of_neg (by simpa using hmem),
        List.filter_nil]
    · rw [if_neg hmem, firstBy, firstBy, List.filter_nil, List.filter_cons_of_pos (by simpa using hmem),
        List.filter_nil]
  rw [hsnoc]
  by_cases hfull : limit ≤ ((firstBy key l).take limit).length
  · have hle : limit ≤ (firstBy key l).length := by
      rw [List.length_take] at hfull
      omega
    rw [List.take_append_of_le_length hle, if_pos (.inl hfull)]
  · have hlt : (firstBy key l).length < limit := by
      rw [List.length_take] at hfull
      omega
    rw [List.take_of_length_le (Nat.le_of_lt hlt)]
    by_cases hmem : key a ∈ l.map key
    · rw [if_pos hmem, if_pos (.inr (mem_map_firstBy.2 hmem)), List.append_nil,
        List.take_of_length_le (Nat.le_of_lt hlt)]
    · rw [if_neg hmem, if_neg, List.take_of_length_le]
      · rw [List.length_append, List.length_singleton]
        exact hlt
      · rw [mem_map_firstBy]
        exact not_or.2 ⟨Nat.not_le.2 hlt, hmem⟩

/-- Where the bound is met, later elements change nothing. -/
theorem take_firstBy_append {limit : Nat} {l : List α}
    (h : limit ≤ ((firstBy key l).take limit).length) (r : List α) :
    (firstBy key (l ++ r)).take limit = (firstBy key l).take limit := by
  have hle : limit ≤ (firstBy key l).length := by
    rw [List.length_take] at h
    omega
  rw [firstBy_append, List.take_append_of_le_length hle]

end

/-- The extensions of a partial derivation by the children that begin where it ends. -/
def grown (children : Partial → List Keyed) (p : Partial) : List Partial :=
  ((children p).filter (·.tree.span.1 == p.stop)).map fun k => p.extend k.tree k.key

/-- Of the partial derivations seen so far those are kept that come first with their forms, up to
the bound. -/
def Gathered (limit : Nat) (seen : List Partial) (found : Array Partial) : Prop :=
  found.toList = (firstBy Partial.key seen).take limit

namespace Gathered

variable {limit : Nat} {seen : List Partial} {found : Array Partial}

theorem nil (limit : Nat) : Gathered limit [] #[] := by
  simp [Gathered, firstBy]

/-- Once the limit is reached, nothing more is gathered, whatever else is seen. -/
theorem append_of_full (h : Gathered limit seen found) (hfull : limit ≤ found.size)
    (more : List Partial) : Gathered limit (seen ++ more) found := by
  have hlength : limit ≤ ((firstBy Partial.key seen).take limit).length := by
    rw [← h]
    exact hfull
  rw [Gathered, take_firstBy_append hlength]
  exact h

/-- A row that is seen is kept if its key is new and there is room for it. -/
theorem keep (h : Gathered limit seen found) (p : Partial) (child : Keyed) :
    Gathered limit (seen ++ [p.extend child.tree child.key]) (keep limit found p child) := by
  rw [Gathered, take_firstBy_snoc, ← h, Forest.keep, Array.length_toList]
  by_cases hfull : limit ≤ found.size
  · rw [if_pos hfull, if_pos (.inl hfull)]
  · rw [if_neg hfull]
    have hany : (found.any (·.key == (p.extend child.tree child.key).key) = true) ↔
        (p.extend child.tree child.key).key ∈ found.toList.map Partial.key := by
      rw [Array.any_eq_true']
      simp
    by_cases hkey : (p.extend child.tree child.key).key ∈ found.toList.map Partial.key
    · rw [if_pos (hany.2 hkey), if_pos (.inr hkey)]
    · rw [if_neg (mt hany.1 hkey), if_neg (not_or.2 ⟨hfull, hkey⟩), Array.toList_push]

private theorem foldl_keep (h : Gathered limit seen found) (p : Partial) (kept : List Keyed) :
    Gathered limit (seen ++ kept.map fun k => p.extend k.tree k.key)
      (kept.foldl (Forest.keep limit · p ·) found) := by
  induction kept generalizing seen found with
  | nil => simpa using h
  | cons child more ih =>
    rw [List.foldl_cons, List.map_cons, ← List.singleton_append, ← List.append_assoc]
    exact ih (h.keep p child)

/-- The rows that grow from one edge are seen one after another, each with all its children. -/
theorem keepAll (h : Gathered limit seen found) (children : Partial → List Keyed)
    (before : List Partial) :
    Gathered limit (seen ++ before.flatMap (grown children)) (keepAll limit children before found) := by
  induction before generalizing seen found with
  | nil => simpa [Forest.keepAll] using h
  | cons p rest ih =>
    rw [Forest.keepAll, List.flatMap_cons]
    split
    · next hfull => exact h.append_of_full hfull _
    · rw [← List.append_assoc]
      exact ih (h.foldl_keep p _)

end Gathered

/-- Every item stands under its number, has found the symbol before its dot, and has edges that lead
to items. -/
structure Linked (c : Chart) : Prop where
  id_eq : ∀ {i : Nat} {item : Item}, c.items[i]? = some item → item.id = i
  symbol : ∀ {i : Nat} {item : Item}, c.items[i]? = some item → item.dot ≠ 0 →
    ∃ s, item.symbolAt? (item.dot - 1) = some s
  previous : ∀ {i : Nat} {item : Item}, c.items[i]? = some item → ∀ e ∈ c.edgesOf i,
    ∃ before, c.item? e.previous = some before
  child : ∀ {i : Nat} {item : Item}, c.items[i]? = some item → ∀ e ∈ c.edgesOf i, ∀ id,
    e.child = some id → ∃ inside, c.item? id = some inside

/-- The children that an edge offers after a partial derivation. -/
def childrenOver (c : Chart) (alts : Item → List Partial) (item : Item) (e : Edge) (p : Partial) :
    List Keyed :=
  match e.child with
  | none =>
    match item.symbolAt? (item.dot - 1) with
    | none => []
    | some symbol => [leafAfter symbol e p]
  | some id =>
    match c.item? id with
    | none => []
    | some child => (alts child).map (Partial.close child)

/-- The partial derivations along one edge of an item. -/
def along (c : Chart) (alts : Item → List Partial) (item : Item) (e : Edge) : List Partial :=
  match c.item? e.previous with
  | none => []
  | some previous => (alts previous).flatMap (grown (childrenOver c alts item e))

section

variable {c : Chart} {alts : Item → List Partial} {item previous child : Item} {e : Edge}

/-- Along an edge to a word, every row before it grows by one leaf. -/
theorem along_leaf (hprevious : c.item? e.previous = some previous) (hleaf : e.child = none)
    {symbol : Symbol} (hsymbol : item.symbolAt? (item.dot - 1) = some symbol) :
    along c alts item e = (alts previous).flatMap (grown fun p => [leafAfter symbol e p]) := by
  have hover : childrenOver c alts item e = fun p => [leafAfter symbol e p] := by
    funext p
    simp only [childrenOver, hleaf, hsymbol]
  rw [along, hprevious, hover]

/-- Along an edge to a finished item, every row before it grows by each tree of that item which begins where
the row ends. -/
theorem along_child (hprevious : c.item? e.previous = some previous) {id : Int}
    (hid : e.child = some id) (hchild : c.item? id = some child) : along c alts item e =
      (alts previous).flatMap (grown fun _ => (alts child).map (Partial.close child)) := by
  have hover : childrenOver c alts item e = fun _ => (alts child).map (Partial.close child) := by
    funext p
    simp only [childrenOver, hid, hchild]
  rw [along, hprevious, hover]

end

section

variable {m : Type → Type} [Monad m] [MonadExceptOf Fault m] {c : Chart} {limit : Nat}
  {expand : Item → m Expansion} {close : Item → m Closed} {item previous child : Item} {e : Edge}
  {found : Array Partial}

/-- Once the limit is reached, no more edges are followed. -/
theorem followEdges_full (hfull : limit ≤ found.size) (edges : List Edge) (cut : Bool) :
    followEdges c limit expand close item edges found cut = pure (found.toList, cut) := by
  cases edges with
  | nil => rfl
  | cons e rest => rw [followEdges, if_pos hfull]

variable [LawfulMonad m]

/-- Over a word, an edge goes on from what its item is expanded to. -/
theorem followEdges_leaf (hroom : ¬ limit ≤ found.size) (hprevious : c.item? e.previous = some previous)
    (hleaf : e.child = none) {symbol : Symbol} (hsymbol : item.symbolAt? (item.dot - 1) = some symbol)
    (rest : List Edge) (cut : Bool) : followEdges c limit expand close item (e :: rest) found cut = (do
      let (before, cutBefore) ← expand previous
      followEdges c limit expand close item rest
        (keepAll limit (fun p => [leafAfter symbol e p]) before found) (cut || cutBefore)) := by
  rw [followEdges, if_neg hroom]
  simp only [itemOf, hprevious, pure_bind, hleaf, hsymbol]

/-- Over a complete item, it goes on with the trees of that. -/
theorem followEdges_child (hroom : ¬ limit ≤ found.size) (hprevious : c.item? e.previous = some previous)
    {id : Int} (hid : e.child = some id) (hchild : c.item? id = some child) (rest : List Edge)
    (cut : Bool) : followEdges c limit expand close item (e :: rest) found cut = (do
      let (before, cutBefore) ← expand previous
      let (inside, cutInside) ← close child
      followEdges c limit expand close item rest
        (keepAll limit (fun _ => inside) before found) (cut || cutBefore || cutInside)) := by
  rw [followEdges, if_neg hroom]
  simp only [itemOf, hprevious, hchild, pure_bind, hid]

end

/-- The items that are not on a path. -/
def offPath (c : Chart) (path : List Nat) : List Nat :=
  (List.range c.items.size).filter (· ∉ path)

/-- Of finitely many items, fewer are off a path that is one item longer. -/
theorem offPath_cons_lt {c : Chart} {path : List Nat} {id : Nat} (hlt : id < c.items.size)
    (hoff : id ∉ path) : (offPath c (id :: path)).length < (offPath c path).length := by
  have hsub : offPath c (id :: path) = (offPath c path).filter (· ≠ id) := by
    rw [offPath, offPath, List.filter_filter]
    refine List.filter_congr fun i _ => ?_
    simp [not_or]
  have hmem : id ∈ offPath c path :=
    List.mem_filter.2 ⟨List.mem_range.2 hlt, by simpa using hoff⟩
  rw [hsub]
  exact List.length_filter_lt_length_iff_exists.2 ⟨id, hmem, by simp⟩

/-- The first elements up to a bound, if there is one. -/
def bounded {α : Type} : Option Nat → List α → List α
  | none, l => l
  | some limit, l => l.take limit

/-- A bound leaves elements of the list in their order. -/
theorem bounded_sublist {α : Type} (limit : Option Nat) (l : List α) :
    (bounded limit l).Sublist l := by
  cases limit with
  | none => exact List.Sublist.refl l
  | some limit => exact List.take_sublist limit l

/-- The partial derivations of an item below the items of a path. -/
def alternatives (c : Chart) (limit : Option Nat) (path : List Nat) (item : Item) : List Partial :=
  if _hcut : item.id ∈ path ∨ c.items.size ≤ item.id then []
  else if item.dot = 0 then [start item]
  else bounded limit (firstBy Partial.key ((c.edgesOf item.id).flatMap
    (along c (fun other => alternatives c limit (item.id :: path) other) item)))
termination_by (offPath c path).length
decreasing_by
  obtain ⟨hoff, hlt⟩ := not_or.1 _hcut
  exact offPath_cons_lt (Nat.not_le.1 hlt) hoff

section

variable {c : Chart} {limit : Option Nat} {path : List Nat} {item : Item}

/-- An item that is met again on a path has no rows there. -/
theorem alternatives_of_mem (hmem : item.id ∈ path) : alternatives c limit path item = [] := by
  rw [alternatives, dif_pos (.inl hmem)]

/-- An item whose dot has not moved has the empty row alone. -/
theorem alternatives_start (hlt : item.id < c.items.size) (hoff : item.id ∉ path)
    (hdot : item.dot = 0) : alternatives c limit path item = [start item] := by
  rw [alternatives, dif_neg (not_or.2 ⟨hoff, Nat.not_le.2 hlt⟩), if_pos hdot]

/-- No two rows of an item have one key. -/
theorem nodup_map_alternatives (c : Chart) (limit : Option Nat) (path : List Nat) (item : Item) :
    ((alternatives c limit path item).map Partial.key).Nodup := by
  rw [alternatives]
  split
  · exact List.nodup_nil
  split
  · exact List.nodup_singleton _
  · exact (nodup_map_firstBy _).sublist ((bounded_sublist limit _).map Partial.key)

/-- The rows of an item are what its edges give with a longer path: the first of each key, up to the
limit. -/
theorem alternatives_eq (hlt : item.id < c.items.size) (hoff : item.id ∉ path)
    (hdot : item.dot ≠ 0) : alternatives c limit path item =
      bounded limit (firstBy Partial.key ((c.edgesOf item.id).flatMap
        (along c (alternatives c limit (item.id :: path)) item))) := by
  rw [alternatives, dif_neg (not_or.2 ⟨hoff, Nat.not_le.2 hlt⟩), if_neg hdot]

end

end Earley.Forest
