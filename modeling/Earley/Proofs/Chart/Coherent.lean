import Earley.Chart.Build
import Mathlib.Data.List.Nodup
import Mathlib.Tactic.Common

namespace Earley

/-- A position that is not negative stands for itself. -/
theorem place?_natCast {size i : Nat} (hi : i < size) : place? size (i : Int) = some i := by
  simp [place?, hi]

namespace Item

/-- An item is at a place if its dot, its origin and both sides of its rule are those asked for; the weight
of the rule does not count. -/
theorem isAt_iff {item : Item} {rule : Rule} {dot origin : Int} :
    item.isAt rule dot origin = true ↔
      item.dot = dot ∧ item.origin = origin ∧ item.rule.lhs = rule.lhs ∧ item.rule.rhs = rule.rhs := by
  simp [isAt, and_assoc]

/-- Keys are made of exactly what makes a place, so that equal keys are equal places. -/
theorem key_eq_iff {item : Item} {rule : Rule} {dot origin : Int} :
    item.key = rule.key dot origin ↔ item.isAt rule dot origin = true := by
  rw [isAt_iff, key, Rule.key, Rule.key, Key.mk.injEq]

theorem isAt_self (item : Item) : item.isAt item.rule item.dot item.origin = true := by
  simp [isAt]

end Item

namespace Chart

/-- Whether a column has the item of a rule with the given dot and origin. -/
def Has (c : Chart) (pos : Nat) (rule : Rule) (dot origin : Int) : Prop :=
  ∃ item ∈ c.column pos, item.isAt rule dot origin = true

/-- Rules that say the same have the same items. -/
theorem Has.congr {c : Chart} {j : Nat} {rule rule' : Rule} {dot origin : Int}
    (h : c.Has j rule dot origin) (hlhs : rule.lhs = rule'.lhs) (hrhs : rule.rhs = rule'.rhs) :
    c.Has j rule' dot origin := by
  obtain ⟨item, hmem, hat⟩ := h
  obtain ⟨hdot, horigin, hl, hr⟩ := Item.isAt_iff.1 hat
  exact ⟨item, hmem, Item.isAt_iff.2 ⟨hdot, horigin, hl.trans hlhs, hr.trans hrhs⟩⟩

/-- The chart with a further item at the end of a column. -/
def pushItem (c : Chart) (pos : Nat) (item : Item) : Chart :=
  { c with
    columns := c.columns.modify pos (·.push item)
    index := c.index.modify pos ((item.key, item) :: ·)
    items := c.items.push item
    edges := c.edges.rightpad (c.items.size + 1) #[] }

/-- The item that a column would get next. -/
def freshItem (c : Chart) (rule : Rule) (dot origin : Int) : Item :=
  ⟨rule, dot, origin, c.items.size⟩

/-- An item that is pushed stands behind the others of its column, and in no other column. -/
theorem column_pushItem (c : Chart) (pos j : Nat) (item : Item) (hpos : pos < c.columns.size) :
    (c.pushItem pos item).column j = if j = pos then (c.column j).push item else c.column j := by
  by_cases hj : j = pos
  · subst hj
    simp only [column, pushItem, Array.getD_eq_getD_getElem?, Array.getElem?_modify, if_true]
    simp [hpos]
  · simp [column, pushItem, Array.getElem?_modify, hj, Ne.symm hj]

/-- The column of the pushed item has it at its end. -/
theorem column_pushItem_self (c : Chart) {pos : Nat} (item : Item) (hpos : pos < c.columns.size) :
    (c.pushItem pos item).column pos = (c.column pos).push item := by
  rw [column_pushItem c pos pos item hpos, if_pos rfl]

/-- The other columns do not have the pushed item. -/
theorem column_pushItem_of_ne (c : Chart) {pos j : Nat} (item : Item) (hj : j ≠ pos) :
    (c.pushItem pos item).column j = c.column j := by
  simp [column, pushItem, Array.getElem?_modify, Ne.symm hj]

@[simp] theorem tokens_pushItem (c : Chart) (pos : Nat) (item : Item) :
    (c.pushItem pos item).tokens = c.tokens := rfl

@[simp] theorem items_pushItem (c : Chart) (pos : Nat) (item : Item) :
    (c.pushItem pos item).items = c.items.push item := rfl

/-- No column is added for a pushed item. -/
@[simp] theorem size_columns_pushItem (c : Chart) (pos : Nat) (item : Item) :
    (c.pushItem pos item).columns.size = c.columns.size := by
  simp [pushItem]

private theorem entries_pushItem (c : Chart) (pos j : Nat) (item : Item) (hpos : pos < c.index.size) :
    (c.pushItem pos item).entries j =
      if j = pos then (item.key, item) :: c.entries j else c.entries j := by
  by_cases hj : j = pos
  · subst hj
    simp only [entries, pushItem, Array.getD_eq_getD_getElem?, Array.getElem?_modify, if_true]
    simp [hpos]
  · simp [entries, pushItem, Array.getElem?_modify, hj, Ne.symm hj]

/-- No index is added for a pushed item. -/
@[simp] theorem size_index_pushItem (c : Chart) (pos : Nat) (item : Item) :
    (c.pushItem pos item).index.size = c.index.size := by
  simp [pushItem]

/-- There is a place for the edges of a pushed item, and there were no fewer places before. -/
@[simp] theorem size_edges_pushItem (c : Chart) (pos : Nat) (item : Item) :
    (c.pushItem pos item).edges.size = max (c.items.size + 1) c.edges.size :=
  Array.size_rightpad

/-- Room for further rows of edges is as good as no room. -/
theorem getD_rightpad (edges : Array (Array Edge)) (size id : Nat) :
    (edges.rightpad size #[]).getD id #[] = edges.getD id #[] := by
  simp only [Array.rightpad, Array.getD_eq_getD_getElem?, Array.getElem?_append,
    Array.getElem?_replicate]
  by_cases hid : id < edges.size
  · rw [if_pos hid]
  · rw [if_neg hid, Array.getElem?_eq_none (Nat.le_of_not_lt hid)]
    split <;> rfl

/-- A pushed item begins without edges, and the edges of others stay. -/
@[simp] theorem edgesOf_pushItem (c : Chart) (pos id : Nat) (item : Item) :
    (c.pushItem pos item).edgesOf id = c.edgesOf id :=
  congrArg Array.toList (getD_rightpad c.edges (c.items.size + 1) id)

@[simp] theorem column_addEdge (c : Chart) (id pos : Nat) (edge : Edge) :
    (c.addEdge id edge).column pos = c.column pos := rfl

@[simp] theorem tokens_addEdge (c : Chart) (id : Nat) (edge : Edge) :
    (c.addEdge id edge).tokens = c.tokens := rfl

@[simp] theorem items_addEdge (c : Chart) (id : Nat) (edge : Edge) :
    (c.addEdge id edge).items = c.items := rfl

@[simp] theorem columns_addEdge (c : Chart) (id : Nat) (edge : Edge) :
    (c.addEdge id edge).columns = c.columns := rfl

/-- What a chart has at a place, it has when there is one more edge. -/
theorem Has.addEdge {c : Chart} {pos : Nat} {rule : Rule} {dot origin : Int}
    (h : c.Has pos rule dot origin) (id : Nat) (edge : Edge) :
    (c.addEdge id edge).Has pos rule dot origin := h

@[simp] theorem index_addEdge (c : Chart) (id : Nat) (edge : Edge) :
    (c.addEdge id edge).index = c.index := rfl

/-- There is a place for an edge that is added, whatever identifier it is for. -/
@[simp] theorem size_edges_addEdge (c : Chart) (id : Nat) (edge : Edge) :
    (c.addEdge id edge).edges.size = max (id + 1) c.edges.size :=
  Array.size_modify.trans Array.size_rightpad

/-- An edge that is added stands behind the others of its item, and with no other item. -/
theorem edgesOf_addEdge (c : Chart) (id id' : Nat) (edge : Edge) :
    (c.addEdge id edge).edgesOf id' =
      if id' = id then c.edgesOf id' ++ [edge] else c.edgesOf id' := by
  have hroom : id < (c.edges.rightpad (id + 1) #[]).size := by
    rw [Array.size_rightpad]
    omega
  rw [edgesOf, edgesOf, ← getD_rightpad c.edges (id + 1) id']
  simp only [addEdge, Array.getD_eq_getD_getElem?, Array.getElem?_modify]
  by_cases h : id' = id
  · subst h
    rw [if_pos rfl, if_pos rfl, Array.getElem?_eq_getElem hroom]
    exact Array.toList_push
  · rw [if_neg h, if_neg (Ne.symm h)]

/-- A chart that was not filled has no items. -/
@[simp] theorem column_empty (tokens : List String) (j : Nat) : (empty tokens).column j = #[] := by
  simp only [column, empty, Array.getD_eq_getD_getElem?, Array.getElem?_replicate]
  split <;> rfl

/-- The index of a chart that was not filled has no entries. -/
@[simp] theorem entries_empty (tokens : List String) (j : Nat) : (empty tokens).entries j = [] := by
  simp only [entries, empty, Array.getD_eq_getD_getElem?, Array.getElem?_replicate]
  split <;> rfl

/-- Each item stands under its number, in one column and there once; each is in the index of its
column and has a list of edges. -/
structure Coherent (c : Chart) : Prop where
  columns_size : c.columns.size = c.tokens.length + 1
  index_size : c.index.size = c.columns.size
  edges_size : c.items.size ≤ c.edges.size
  entries_eq : ∀ j, c.entries j = ((c.column j).toList.map fun item => (item.key, item)).reverse
  items_of_column : ∀ {j : Nat} {item : Item}, item ∈ c.column j → c.items[item.id]? = some item
  column_of_items : ∀ {i : Nat} {item : Item}, c.items[i]? = some item →
    item.id = i ∧ ∃ j, item ∈ c.column j
  column_unique : ∀ {j j' : Nat} {item : Item}, item ∈ c.column j → item ∈ c.column j' → j = j'
  index_unique : ∀ {j i i' : Nat} {item item' : Item}, (c.column j)[i]? = some item →
    (c.column j)[i']? = some item' → item.isAt item'.rule item'.dot item'.origin = true → i = i'

namespace Coherent

variable {c : Chart}

/-- No two items of a coherent chart have one identifier. -/
theorem eq_of_id (hc : c.Coherent) {j j' : Nat} {item item' : Item} (hmem : item ∈ c.column j)
    (hmem' : item' ∈ c.column j') (hid : item.id = item'.id) : item = item' := by
  have h := hc.items_of_column hmem
  rw [hid, hc.items_of_column hmem'] at h
  exact (Option.some.inj h).symm

/-- An item that is at the place of another one in its column is that item. -/
theorem eq_of_isAt (hc : c.Coherent) {j : Nat} {item item' : Item} (hmem : item ∈ c.column j)
    (hmem' : item' ∈ c.column j) (hat : item.isAt item'.rule item'.dot item'.origin = true) :
    item = item' := by
  obtain ⟨i, hi⟩ := Array.getElem?_of_mem hmem
  obtain ⟨i', hi'⟩ := Array.getElem?_of_mem hmem'
  obtain rfl := hc.index_unique hi hi' hat
  exact Option.some.inj (hi.symm.trans hi')

/-- At most one item of a column is at a place. -/
theorem eq_of_isAt_isAt (hc : c.Coherent) {j : Nat} {item item' : Item} (hmem : item ∈ c.column j)
    (hmem' : item' ∈ c.column j) {rule : Rule} {dot origin : Int}
    (hat : item.isAt rule dot origin = true) (hat' : item'.isAt rule dot origin = true) :
    item = item' := by
  obtain ⟨hdot, horigin, hlhs, hrhs⟩ := Item.isAt_iff.1 hat
  obtain ⟨hdot', horigin', hlhs', hrhs'⟩ := Item.isAt_iff.1 hat'
  exact hc.eq_of_isAt hmem hmem' (Item.isAt_iff.2 ⟨hdot.trans hdot'.symm, horigin.trans horigin'.symm,
    hlhs.trans hlhs'.symm, hrhs.trans hrhs'.symm⟩)

/-- No column has an item twice. -/
theorem column_nodup (hc : c.Coherent) (j : Nat) : (c.column j).toList.Nodup := by
  rw [List.nodup_iff_getElem?_ne_getElem?]
  intro i i' hlt hbound heq
  obtain ⟨item, hget⟩ : ∃ item, (c.column j)[i']? = some item :=
    ⟨_, Array.getElem?_eq_getElem (by simpa using hbound)⟩
  have hget' := hget
  rw [← Array.getElem?_toList, ← heq, Array.getElem?_toList] at hget'
  have := hc.index_unique hget' hget (Item.isAt_self _)
  omega

/-- What the index of a column finds under a key is the item of the column that has it. -/
theorem mem_of_lookup (hc : c.Coherent) {j : Nat} {key : Item.Key} {item : Item}
    (hfound : (c.entries j).lookup key = some item) : item ∈ c.column j ∧ item.key = key := by
  obtain ⟨before, after, hsplit, -⟩ := List.lookup_eq_some_iff.1 hfound
  have hmem : (key, item) ∈ c.entries j := by simp [hsplit]
  rw [hc.entries_eq, List.mem_reverse, List.mem_map] at hmem
  obtain ⟨other, hother, heq⟩ := hmem
  obtain ⟨hkey, rfl⟩ := Prod.mk.inj heq
  exact ⟨Array.mem_toList_iff.1 hother, hkey⟩

/-- What the index finds is in the column, at the place that was looked for. -/
theorem lookup_eq_some (hc : c.Coherent) {j : Nat} {rule : Rule} {dot origin : Int} {item : Item}
    (hfound : (c.entries j).lookup (rule.key dot origin) = some item) :
    item ∈ c.column j ∧ item.isAt rule dot origin = true :=
  (hc.mem_of_lookup hfound).imp_right Item.key_eq_iff.1

/-- Where the index finds nothing, the column has no item at the place. -/
theorem lookup_eq_none (hc : c.Coherent) {j : Nat} {rule : Rule} {dot origin : Int}
    (hnone : (c.entries j).lookup (rule.key dot origin) = none) : ¬ c.Has j rule dot origin := by
  rintro ⟨item, hmem, hat⟩
  have hentry : (item.key, item) ∈ c.entries j := by
    rw [hc.entries_eq, List.mem_reverse]
    exact List.mem_map_of_mem (Array.mem_toList_iff.2 hmem)
  have hkey := List.lookup_eq_none_iff.1 hnone _ hentry
  rw [Item.key_eq_iff.2 hat] at hkey
  simp at hkey

/-- Identifiers are positions in the list of all items. -/
theorem id_lt_items (hc : c.Coherent) {j : Nat} {item : Item} (hmem : item ∈ c.column j) :
    item.id < c.items.size :=
  (Array.getElem?_eq_some_iff.1 (hc.items_of_column hmem)).1

/-- Every item has a place for its edges. -/
theorem id_lt_edges (hc : c.Coherent) {j : Nat} {item : Item} (hmem : item ∈ c.column j) :
    item.id < c.edges.size :=
  Nat.lt_of_lt_of_le (hc.id_lt_items hmem) hc.edges_size

/-- An item is found again by its identifier. -/
theorem item?_of_mem (hc : c.Coherent) {j : Nat} {item : Item} (hmem : item ∈ c.column j) :
    c.item? item.id = some item := by
  rw [item?, place?_natCast (hc.id_lt_items hmem), Option.bind_some, hc.items_of_column hmem]

/-- A column beyond the last one is empty. -/
theorem column_lt (hc : c.Coherent) {j : Nat} {item : Item} (hmem : item ∈ c.column j) :
    j ≤ c.tokens.length := by
  by_contra hj
  have hnone : c.columns[j]? = none := Array.getElem?_eq_none (by rw [hc.columns_size]; omega)
  simp [column, hnone] at hmem

/-- A chart that was not filled is coherent. -/
theorem empty (tokens : List String) : (Chart.empty tokens).Coherent := by
  constructor
  · simp [Chart.empty]
  · simp [Chart.empty]
  · exact Nat.le_refl 0
  · intro j
    rw [entries_empty, column_empty]
    rfl
  · intro j item hmem
    simp at hmem
  · intro i item hget
    simp [Chart.empty] at hget
  · intro j j' item hmem
    simp at hmem
  · intro j i i' item item' hget
    simp at hget

/-- A coherent chart stays so when an edge is added, for whatever identifier. -/
theorem addEdge (hc : c.Coherent) (id : Nat) (edge : Edge) : (c.addEdge id edge).Coherent where
  columns_size := hc.columns_size
  index_size := hc.index_size
  edges_size := by
    rw [size_edges_addEdge]
    exact Nat.le_trans hc.edges_size (Nat.le_max_right _ _)
  entries_eq := hc.entries_eq
  items_of_column := hc.items_of_column
  column_of_items := hc.column_of_items
  column_unique := hc.column_unique
  index_unique := hc.index_unique

private theorem mem_column_pushItem {pos j : Nat} {item new : Item} (hpos : pos < c.columns.size) :
    item ∈ (c.pushItem pos new).column j ↔ item ∈ c.column j ∨ j = pos ∧ item = new := by
  rw [column_pushItem c pos j new hpos]
  by_cases hj : j = pos
  · simp [hj]
  · simp [hj]

/-- In a column to which an item is pushed that is at a place where no item was, each place is taken once. -/
private theorem index_unique_pushItem (hc : c.Coherent) {pos : Nat} (hpos : pos < c.columns.size)
    {new : Item} (hnew : ¬ c.Has pos new.rule new.dot new.origin) {i i' : Nat} {item item' : Item}
    (hget : ((c.pushItem pos new).column pos)[i]? = some item)
    (hget' : ((c.pushItem pos new).column pos)[i']? = some item')
    (hat : item.isAt item'.rule item'.dot item'.origin = true) : i = i' := by
  rw [column_pushItem_self c _ hpos, Array.getElem?_push] at hget hget'
  by_cases hi : i = (c.column pos).size <;> by_cases hi' : i' = (c.column pos).size
  · omega
  · rw [if_pos hi] at hget
    rw [if_neg hi'] at hget'
    obtain rfl := Option.some.inj hget
    refine absurd ⟨item', Array.mem_of_getElem? hget', ?_⟩ hnew
    rw [Item.isAt_iff] at hat ⊢
    exact ⟨hat.1.symm, hat.2.1.symm, hat.2.2.1.symm, hat.2.2.2.symm⟩
  · rw [if_neg hi] at hget
    rw [if_pos hi'] at hget'
    obtain rfl := Option.some.inj hget'
    exact absurd ⟨item, Array.mem_of_getElem? hget, hat⟩ hnew
  · rw [if_neg hi] at hget
    rw [if_neg hi'] at hget'
    exact hc.index_unique hget hget' hat

/-- A coherent chart stays so when a fresh item is pushed to a place that no item is at. -/
theorem pushItem (hc : c.Coherent) {pos : Nat} (hpos : pos < c.columns.size) {rule : Rule}
    {dot origin : Int} (hnew : ¬ c.Has pos rule dot origin) :
    (c.pushItem pos (c.freshItem rule dot origin)).Coherent where
  columns_size := by simpa using hc.columns_size
  index_size := by simpa using hc.index_size
  edges_size := by
    rw [items_pushItem, Array.size_push, size_edges_pushItem]
    exact Nat.le_max_left _ _
  entries_eq j := by
    rw [entries_pushItem c pos j _ (by rwa [hc.index_size]), column_pushItem c pos j _ hpos]
    by_cases hj : j = pos
    · simp [hj, hc.entries_eq]
    · simp [hj, hc.entries_eq]
  items_of_column hmem := by
    rcases (mem_column_pushItem hpos).1 hmem with hold | ⟨_, rfl⟩
    · have hlt := hc.id_lt_items hold
      rw [items_pushItem, Array.getElem?_push, if_neg (by omega)]
      exact hc.items_of_column hold
    · simp [freshItem]
  column_of_items {i item} hget := by
    rw [items_pushItem, Array.getElem?_push] at hget
    by_cases hi : i = c.items.size
    · rw [if_pos hi] at hget
      obtain rfl := Option.some.inj hget
      exact ⟨hi.symm, pos, (mem_column_pushItem hpos).2 (.inr ⟨rfl, rfl⟩)⟩
    · rw [if_neg hi] at hget
      obtain ⟨hid, j, hmem⟩ := hc.column_of_items hget
      exact ⟨hid, j, (mem_column_pushItem hpos).2 (.inl hmem)⟩
  column_unique {j j' item} hmem hmem' := by
    have hfresh {k : Nat} (hold : c.freshItem rule dot origin ∈ c.column k) : False := by
      have hlt := hc.id_lt_items hold
      simp [freshItem] at hlt
    rcases (mem_column_pushItem hpos).1 hmem with hold | ⟨rfl, rfl⟩ <;>
      rcases (mem_column_pushItem hpos).1 hmem' with hold' | ⟨rfl, heq⟩
    · exact hc.column_unique hold hold'
    · exact (hfresh (heq ▸ hold)).elim
    · exact (hfresh hold').elim
    · rfl
  index_unique {j i i' item item'} hget hget' hat := by
    by_cases hj : j = pos
    · subst hj
      exact hc.index_unique_pushItem hpos hnew hget hget' hat
    · rw [column_pushItem_of_ne c _ hj] at hget hget'
      exact hc.index_unique hget hget' hat

end Coherent

/-- An insertion finds its item, or the item is new in its column. -/
theorem insert_cases {c : Chart} (hc : c.Coherent) (pos : Nat) (rule : Rule) (dot origin : Int) :
    (∃ item ∈ c.column pos, item.isAt rule dot origin = true ∧
      c.insert pos rule dot origin = (item, c)) ∨
    (¬ c.Has pos rule dot origin ∧ c.insert pos rule dot origin =
      (c.freshItem rule dot origin, c.pushItem pos (c.freshItem rule dot origin))) := by
  unfold insert
  cases hfind : (c.entries pos).lookup (rule.key dot origin) with
  | some item =>
    obtain ⟨hmem, hat⟩ := hc.lookup_eq_some hfind
    exact .inl ⟨item, hmem, hat, rfl⟩
  | none => exact .inr ⟨hc.lookup_eq_none hfind, rfl⟩

end Chart

end Earley
