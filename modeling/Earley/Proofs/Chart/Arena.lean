import Earley.Proofs.Chart.Made

namespace Earley

/-- Which place an index names. -/
theorem place?_eq_some_iff {size k : Nat} {i : Int} :
    place? size i = some k ↔ k < size ∧ (i = k ∨ i + size = k) := by
  unfold place?
  split
  · split
    · simp only [Option.some.injEq]
      omega
    · simp only [reduceCtorEq, false_iff]
      omega
  · split
    · simp only [Option.some.injEq]
      omega
    · simp only [reduceCtorEq, false_iff]
      omega

private theorem place?_eq_none_iff {size : Nat} {i : Int} :
    place? size i = none ↔ i + size < 0 ∨ size ≤ i := by
  unfold place?
  split
  · split
    · simp only [reduceCtorEq, false_iff]
      omega
    · simp only [true_iff]
      omega
  · split
    · simp only [reduceCtorEq, false_iff]
      omega
    · simp only [true_iff]
      omega

namespace Chart

/-- A change to a chart: an item or an edge for the item of a number. -/
inductive Change where
  | insert (pos : Int) (rule : Rule) (dot origin : Int)
  | addEdge (id : Nat) (edge : Edge)

/-- The edge that a change adds to the item of a number. -/
def Change.edge? (id : Nat) : Change → Option Edge
  | .insert .. => none
  | .addEdge target edge => if target = id then some edge else none

/-- The chart after a change; an insertion into no column of it is without effect. -/
def change (c : Chart) : Change → Chart
  | .insert pos rule dot origin => ((c.insert? pos rule dot origin).map Prod.snd).getD c
  | .addEdge id edge => c.addEdge id edge

/-- The chart of some tokens after a row of changes. -/
def after (tokens : List String) (changes : List Change) : Chart :=
  changes.foldl change (empty tokens)

/-- Items, columns and indexes are in step. -/
structure InStep (c : Chart) : Prop where
  /-- Each item has the number of its place. -/
  id_eq : ∀ {i : Nat} {item : Item}, c.items[i]? = some item → item.id = i
  /-- Each item stands in one column only. -/
  column : ∀ item ∈ c.items, ∃! j, item ∈ c.column j
  /-- All columns together have all items, each of them once. -/
  perm : ((List.range c.columns.size).flatMap fun j => (c.column j).toList).Perm c.items.toList
  /-- There are as many items as all columns have. -/
  size_eq : c.items.size = ((List.range c.columns.size).map fun j => (c.column j).size).sum
  /-- No two items of a column have the same key. -/
  keys : ∀ j, ((c.column j).toList.map Item.key).Nodup
  /-- The index of a column finds its items, and nothing else. -/
  lookup : ∀ j key item, (c.entries j).lookup key = some item ↔ item ∈ c.column j ∧ item.key = key

/-- What an insertion into column `k` does: the item that it answers is the one with the key asked for,
and if there was none, it is new and comes last. All else stays. -/
structure Inserted (c : Chart) (k : Nat) (rule : Rule) (dot origin : Int) (item : Item) (d : Chart) :
    Prop where
  mem : item ∈ d.column k
  key_eq : item.key = rule.key dot origin
  found : c.Has k rule dot origin → d = c
  items : ¬c.Has k rule dot origin → item = ⟨rule, dot, origin, c.items.size⟩ ∧
    d.items = c.items.push item ∧ d.column k = (c.column k).push item
  tokens : d.tokens = c.tokens
  size : d.columns.size = c.columns.size
  column : ∀ j, j ≠ k → d.column j = c.column j
  edgesOf : ∀ id, d.edgesOf id = c.edgesOf id

namespace Coherent

variable {c : Chart}

private theorem key_nodup (hc : c.Coherent) (j : Nat) : ((c.column j).toList.map Item.key).Nodup := by
  refine (hc.column_nodup j).map_on fun item hitem item' hitem' hkey => ?_
  exact hc.eq_of_isAt (Array.mem_toList_iff.1 hitem) (Array.mem_toList_iff.1 hitem')
    (Item.key_eq_iff.1 hkey)

private theorem lookup_iff (hc : c.Coherent) {j : Nat} {key : Item.Key} {item : Item} :
    (c.entries j).lookup key = some item ↔ item ∈ c.column j ∧ item.key = key := by
  refine ⟨hc.mem_of_lookup, ?_⟩
  rintro ⟨hmem, rfl⟩
  cases hfound : (c.entries j).lookup item.key with
  | none => exact absurd ⟨item, hmem, Item.isAt_self item⟩ (hc.lookup_eq_none hfound)
  | some other =>
    obtain ⟨hother, hat⟩ := hc.lookup_eq_some hfound
    rw [hc.eq_of_isAt hother hmem hat]

private theorem items_nodup (hc : c.Coherent) : c.items.toList.Nodup := by
  rw [List.nodup_iff_getElem?_ne_getElem?]
  intro i i' hlt hbound heq
  obtain ⟨item, hget⟩ : ∃ item, c.items[i']? = some item :=
    ⟨_, Array.getElem?_eq_getElem (by simpa using hbound)⟩
  have hget' := hget
  rw [← Array.getElem?_toList, ← heq, Array.getElem?_toList] at hget'
  have := (hc.column_of_items hget).1.symm.trans (hc.column_of_items hget').1
  omega

/-- The list of all items has exactly those that stand in columns. -/
theorem mem_items (hc : c.Coherent) {item : Item} : item ∈ c.items ↔ ∃ j, item ∈ c.column j := by
  constructor
  · intro hmem
    obtain ⟨i, hi⟩ := Array.getElem?_of_mem hmem
    exact (hc.column_of_items hi).2
  · rintro ⟨j, hmem⟩
    exact Array.mem_of_getElem? (hc.items_of_column hmem)

/-- The columns share out the items. -/
theorem columns_perm (hc : c.Coherent) :
    ((List.range c.columns.size).flatMap fun j => (c.column j).toList).Perm c.items.toList := by
  refine (List.perm_ext_iff_of_nodup ?_ hc.items_nodup).2 fun item => ?_
  · refine List.nodup_flatMap.2 ⟨fun j _ => hc.column_nodup j, ?_⟩
    refine List.nodup_range.imp fun {j j'} hne item hitem hitem' => ?_
    exact hne (hc.column_unique (Array.mem_toList_iff.1 hitem) (Array.mem_toList_iff.1 hitem'))
  · rw [List.mem_flatMap, Array.mem_toList_iff, hc.mem_items]
    constructor
    · rintro ⟨j, -, hmem⟩
      exact ⟨j, Array.mem_toList_iff.1 hmem⟩
    · rintro ⟨j, hmem⟩
      have hle := hc.column_lt hmem
      refine ⟨j, List.mem_range.2 ?_, Array.mem_toList_iff.2 hmem⟩
      rw [hc.columns_size]
      omega

private theorem inStep (hc : c.Coherent) : c.InStep where
  id_eq hget := (hc.column_of_items hget).1
  column item hmem := by
    obtain ⟨j, hj⟩ := hc.mem_items.1 hmem
    exact ⟨j, hj, fun j' hj' => hc.column_unique hj' hj⟩
  perm := hc.columns_perm
  size_eq := by
    have hlength := hc.columns_perm.length_eq
    rw [List.length_flatMap, Array.length_toList] at hlength
    exact hlength.symm
  keys := hc.key_nodup
  lookup _ _ _ := hc.lookup_iff

/-- What an insertion does to a coherent chart, said about all tables at once. -/
theorem inserted (hc : c.Coherent) {k : Nat} (hk : k < c.columns.size) (rule : Rule) (dot origin : Int) :
    Inserted c k rule dot origin (c.insert k rule dot origin).1 (c.insert k rule dot origin).2 := by
  rcases insert_cases hc k rule dot origin with ⟨item, hmem, hat, heq⟩ | ⟨hnew, heq⟩
  · rw [heq]
    exact {
      mem := hmem
      key_eq := Item.key_eq_iff.2 hat
      found := fun _ => rfl
      items := fun hnew => absurd ⟨item, hmem, hat⟩ hnew
      tokens := rfl
      size := rfl
      column := fun _ _ => rfl
      edgesOf := fun _ => rfl }
  · rw [heq]
    exact {
      mem := by
        rw [column_pushItem_self c _ hk]
        exact Array.mem_push_self
      key_eq := rfl
      found := fun hhas => absurd hhas hnew
      items := fun _ => ⟨rfl, rfl, column_pushItem_self c _ hk⟩
      tokens := rfl
      size := size_columns_pushItem c k _
      column := fun _ hj => column_pushItem_of_ne c _ hj
      edgesOf := fun id => edgesOf_pushItem c k id _ }

end Coherent

variable {c : Chart}

private theorem insert?_eq_none_iff {pos : Int} {rule : Rule} {dot origin : Int} :
    c.insert? pos rule dot origin = none ↔ pos + c.columns.size < 0 ∨ c.columns.size ≤ pos := by
  rw [insert?, Option.map_eq_none_iff, place?_eq_none_iff]

/-- An insertion goes into the column that its position names. -/
theorem Coherent.inserted_of_insert? (hc : c.Coherent) {pos : Int} {rule : Rule} {dot origin : Int}
    {item : Item} {d : Chart} (h : c.insert? pos rule dot origin = some (item, d)) :
    ∃ k < c.columns.size, (pos = k ∨ pos + c.columns.size = k) ∧
      Inserted c k rule dot origin item d := by
  obtain ⟨k, hplace, heq⟩ := Option.map_eq_some_iff.1 h
  obtain ⟨hk, hpos⟩ := place?_eq_some_iff.1 hplace
  obtain ⟨rfl, rfl⟩ := Prod.mk.inj heq
  exact ⟨k, hk, hpos, hc.inserted hk rule dot origin⟩

/-- Each change leaves a chart that was made by changes. -/
theorem Made.change (h : Made c) (step : Change) : Made (c.change step) := by
  cases step with
  | addEdge id edge => exact h.addEdge id edge
  | insert pos rule dot origin =>
    rw [Chart.change]
    cases hinsert : c.insert? pos rule dot origin with
    | none => exact h
    | some found => exact h.insert hinsert

private theorem edgesOf_change (hc : c.Coherent) (step : Change) (id : Nat) :
    (c.change step).edgesOf id = c.edgesOf id ++ (step.edge? id).toList := by
  cases step with
  | addEdge target edge =>
    rw [change, edgesOf_addEdge, Change.edge?]
    by_cases htarget : target = id
    · simp [htarget]
    · simp [htarget, Ne.symm htarget]
  | insert pos rule dot origin =>
    rw [change, Change.edge?, Option.toList_none, List.append_nil]
    cases hinsert : c.insert? pos rule dot origin with
    | none => rfl
    | some found =>
      obtain ⟨k, -, -, hinserted⟩ := hc.inserted_of_insert? hinsert
      exact hinserted.edgesOf id

private theorem tokens_change (hc : c.Coherent) (step : Change) : (c.change step).tokens = c.tokens := by
  cases step with
  | addEdge id edge => rfl
  | insert pos rule dot origin =>
    rw [change]
    cases hinsert : c.insert? pos rule dot origin with
    | none => rfl
    | some found =>
      obtain ⟨k, -, -, hinserted⟩ := hc.inserted_of_insert? hinsert
      exact hinserted.tokens

private theorem made_after (tokens : List String) (changes : List Change) :
    Made (after tokens changes) ∧ (after tokens changes).tokens = tokens :=
  List.foldlRecOn (motive := fun c => Made c ∧ c.tokens = tokens) changes _ ⟨.empty tokens, rfl⟩
    fun _ h step _ => ⟨h.1.change step, (tokens_change h.1.coherent step).trans h.2⟩

private theorem edgesOf_foldl (h : Made c) (changes : List Change) (id : Nat) :
    (changes.foldl change c).edgesOf id = c.edgesOf id ++ changes.filterMap (·.edge? id) := by
  induction changes generalizing c with
  | nil => simp
  | cons step rest ih =>
    rw [List.foldl_cons, ih (h.change step), edgesOf_change h.coherent, List.append_assoc,
      List.filterMap_cons]
    cases step.edge? id <;> rfl

/-- After any changes to the chart of some tokens, its parts are in step. An insertion fails just where
its position names no column, and then nothing has changed; else it goes into the column named, below
zero counted from the end. A new edge changes no item and no column, and each number has the edges that
were added to it, in their order. -/
theorem arena_after (tokens : List String) (changes : List Change) :
    (after tokens changes).InStep ∧
    (after tokens changes).columns.size = tokens.length + 1 ∧
    (∀ pos rule dot origin,
      ((after tokens changes).insert? pos rule dot origin = none ↔
        pos < -(tokens.length + 1) ∨ tokens.length + 1 ≤ pos) ∧
      ((after tokens changes).insert? pos rule dot origin = none →
        after tokens (changes ++ [.insert pos rule dot origin]) = after tokens changes) ∧
      ∀ item d, (after tokens changes).insert? pos rule dot origin = some (item, d) →
        after tokens (changes ++ [.insert pos rule dot origin]) = d ∧
        ∃ k ≤ tokens.length, (pos = k ∨ pos + (tokens.length + 1) = k) ∧
          Inserted (after tokens changes) k rule dot origin item d) ∧
    (∀ id edge,
      (after tokens (changes ++ [.addEdge id edge])).items = (after tokens changes).items ∧
      (after tokens (changes ++ [.addEdge id edge])).columns = (after tokens changes).columns) ∧
    ∀ id, (after tokens changes).edgesOf id = changes.filterMap (·.edge? id) := by
  obtain ⟨hmade, htokens⟩ := made_after tokens changes
  have hc := hmade.coherent
  have hsize : (after tokens changes).columns.size = tokens.length + 1 := by
    rw [hc.columns_size, htokens]
  have hstep (step : Change) : after tokens (changes ++ [step]) = (after tokens changes).change step := by
    rw [after, List.foldl_append]
    rfl
  refine ⟨hc.inStep, hsize, fun pos rule dot origin => ⟨?_, fun hnone => ?_, fun item d hsome => ?_⟩,
    fun id edge => ?_, fun id => ?_⟩
  · rw [insert?_eq_none_iff, hsize]
    omega
  · rw [hstep, change, hnone]
    rfl
  · obtain ⟨k, hk, hpos, hinserted⟩ := hc.inserted_of_insert? hsome
    rw [hsize] at hk hpos
    refine ⟨?_, k, Nat.le_of_lt_succ hk, by simpa using hpos, hinserted⟩
    rw [hstep, change, hsome]
    rfl
  · rw [hstep]
    exact ⟨rfl, rfl⟩
  · rw [after, edgesOf_foldl (.empty tokens)]
    rfl

/-- An edge that comes before its item, an insertion that counts from the end, one into no column, and
one of a rule that is there with another weight. -/
def aliased : List Change :=
  [.addEdge 1 { previous := 0, word := some "x" }, .insert (-1) ⟨"S", ["N"], Binary64.one⟩ 1 0,
    .insert 2 ⟨"S", ["N"], Binary64.one⟩ 0 0, .insert 1 ⟨"S", ["N"], .infinite true⟩ 1 0,
    .insert 0 ⟨"S", ["N"], Binary64.one⟩ 0 0]

/-- An edge before its item, a position counted from the end, an item that is there already, and a column
that is not there. -/
theorem arena_after_aliased :
    (after ["x"] aliased).items.size = 2 ∧
    (after ["x"] aliased).edgesOf 1 = [{ previous := 0, word := some "x" }] ∧
    (after ["x"] aliased).insert? 2 ⟨"S", ["N"], Binary64.one⟩ 0 0 = none ∧
    after ["x"] (aliased ++ [.insert 2 ⟨"S", ["N"], Binary64.one⟩ 0 0]) = after ["x"] aliased ∧
    ∃ item d, (after ["x"] aliased).insert? (-2) ⟨"NP", ["N"], Binary64.one⟩ 0 0 = some (item, d) ∧
      Inserted (after ["x"] aliased) 0 ⟨"NP", ["N"], Binary64.one⟩ 0 0 item d := by
  obtain ⟨-, -, hinsert, -, hedges⟩ := arena_after ["x"] aliased
  have hnone : (after ["x"] aliased).insert? 2 ⟨"S", ["N"], Binary64.one⟩ 0 0 = none :=
    (hinsert 2 _ 0 0).1.2 (.inr (by decide))
  obtain ⟨⟨item, d⟩, hsome⟩ : ∃ found,
      (after ["x"] aliased).insert? (-2) ⟨"NP", ["N"], Binary64.one⟩ 0 0 = some found := ⟨_, rfl⟩
  obtain ⟨-, k, hk, hpos, hinserted⟩ := (hinsert _ _ _ _).2.2 item d hsome
  obtain rfl : k = 0 := by
    rcases hpos with hpos | hpos
    · omega
    · simpa using hpos.symm
  exact ⟨by decide, hedges 1, hnone, (hinsert 2 _ 0 0).2.1 hnone, item, d, hsome, hinserted⟩

end Chart

end Earley
