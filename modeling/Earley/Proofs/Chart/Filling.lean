import Earley.Proofs.Chart.Coherent

namespace Earley.Chart

/-- A later chart of the same tokens: all that stood before column `pos` is still the same, the other
columns and the list of items have only grown, and edges still belong to items that are there. -/
structure Extends (pos : Nat) (c c' : Chart) : Prop where
  tokens : c'.tokens = c.tokens
  size : c'.columns.size = c.columns.size
  before : ∀ j < pos, c'.column j = c.column j
  columns : ∀ j, (c.column j).toList <+: (c'.column j).toList
  items : c.items.toList <+: c'.items.toList
  edges : c.edges.size ≤ c.items.size → c'.edges.size ≤ c'.items.size

namespace Extends

variable {c c' c'' : Chart} {pos : Nat}

theorem refl (pos : Nat) (c : Chart) : Extends pos c c :=
  ⟨rfl, rfl, fun _ _ => rfl, fun _ => List.prefix_rfl, List.prefix_rfl, fun h => h⟩

/-- An extension of an extension is one. -/
theorem trans (h : Extends pos c c') (h' : Extends pos c' c'') : Extends pos c c'' where
  tokens := h'.tokens.trans h.tokens
  size := h'.size.trans h.size
  before j hj := (h'.before j hj).trans (h.before j hj)
  columns j := (h.columns j).trans (h'.columns j)
  items := h.items.trans h'.items
  edges hle := h'.edges (h.edges hle)

private theorem mono (h : Extends pos c c') {pos' : Nat} (hpos : pos' ≤ pos) : Extends pos' c c' :=
  { h with before := fun j hj => h.before j (Nat.lt_of_lt_of_le hj hpos) }

/-- No item is lost in an extension. -/
theorem mem (h : Extends pos c c') {j : Nat} {item : Item} (hmem : item ∈ c.column j) :
    item ∈ c'.column j := by
  rw [← Array.mem_toList_iff] at hmem ⊢
  exact (h.columns j).subset hmem

/-- What a chart has at a place, its extensions have. -/
theorem has (h : Extends pos c c') {j : Nat} {rule : Rule} {dot origin : Int}
    (hhas : c.Has j rule dot origin) : c'.Has j rule dot origin := by
  obtain ⟨item, hmem, hat⟩ := hhas
  exact ⟨item, h.mem hmem, hat⟩

/-- Items keep their places in the columns of extensions. -/
theorem getElem? (h : Extends pos c c') {j i : Nat} {item : Item}
    (hget : (c.column j)[i]? = some item) : (c'.column j)[i]? = some item := by
  rw [← Array.getElem?_toList] at hget ⊢
  obtain ⟨more, hmore⟩ := h.columns j
  rw [← hmore]
  exact List.getElem?_append_left (List.getElem?_eq_some_iff.1 hget).1 ▸ hget

/-- A pushed item extends a chart, if its column is not behind those that may change. -/
theorem pushItem (c : Chart) {pos k : Nat} (hpos : pos ≤ k) (hk : k < c.columns.size) (item : Item) :
    Extends pos c (c.pushItem k item) where
  tokens := rfl
  size := size_columns_pushItem c k item
  before j hj := column_pushItem_of_ne c item (by omega)
  columns j := by
    rw [column_pushItem c k j item hk]
    split
    · simp
    · exact List.prefix_rfl
  items := by simp
  edges hle := by
    rw [size_edges_pushItem, items_pushItem, Array.size_push]
    omega

/-- An edge extends a chart, if its item has been there. -/
theorem addEdge (pos : Nat) (c : Chart) {id : Nat} (edge : Edge) (hid : id < c.edges.size) :
    Extends pos c (c.addEdge id edge) where
  tokens := rfl
  size := rfl
  before _ _ := rfl
  columns _ := List.prefix_rfl
  items := List.prefix_rfl
  edges hle := by
    rw [size_edges_addEdge, items_addEdge]
    omega

end Extends

section

variable {c : Chart} {pos k : Nat}

/-- What an insertion gives: the item asked for, in a chart that may have become longer by it. -/
theorem insert_spec (hc : c.Coherent) (hpos : pos ≤ k) (hk : k < c.columns.size) (rule : Rule)
    (dot origin : Int) :
    (c.insert k rule dot origin).2.Coherent ∧ Extends pos c (c.insert k rule dot origin).2 ∧
      (c.insert k rule dot origin).1 ∈ (c.insert k rule dot origin).2.column k ∧
      (c.insert k rule dot origin).1.isAt rule dot origin = true := by
  rcases insert_cases hc k rule dot origin with ⟨item, hmem, hat, heq⟩ | ⟨hnew, heq⟩
  · rw [heq]
    exact ⟨hc, .refl pos c, hmem, hat⟩
  · rw [heq]
    refine ⟨hc.pushItem hk hnew, .pushItem c hpos hk _, ?_, Item.isAt_self _⟩
    rw [column_pushItem_self c _ hk]
    exact Array.mem_push_self

/-- To move an item on is to insert it with its dot one place further, and to add the edge. -/
theorem advance_eq (c : Chart) (k : Nat) (item : Item) (edge : Edge) :
    c.advance k item edge =
      (c.insert k item.rule (item.dot + 1) item.origin).2.addEdge
        (c.insert k item.rule (item.dot + 1) item.origin).1.id edge := rfl

/-- Moving an item on keeps a chart coherent, extends it, and leaves the moved item in it. -/
theorem advance_spec (hc : c.Coherent) (hpos : pos ≤ k) (hk : k < c.columns.size) (item : Item)
    (edge : Edge) :
    (c.advance k item edge).Coherent ∧ Extends pos c (c.advance k item edge) ∧
      (c.advance k item edge).Has k item.rule (item.dot + 1) item.origin := by
  obtain ⟨hcoherent, hextends, hmem, hat⟩ :=
    insert_spec hc hpos hk item.rule (item.dot + 1) item.origin
  rw [advance_eq]
  have hedge := Extends.addEdge pos _ edge (hcoherent.id_lt_edges hmem)
  have hhas : (c.insert k item.rule (item.dot + 1) item.origin).2.Has k item.rule (item.dot + 1)
      item.origin := ⟨_, hmem, hat⟩
  exact ⟨hcoherent.addEdge _ _, hextends.trans hedge, hhas.addEdge _ edge⟩

end

/-- The edge of an item that was moved over a word. -/
def wordEdge (item : Item) (word : String) (r : Reading) : Edge :=
  { previous := item.id, word := some word, reading := some r }

/-- The edge of an item that was moved over a complete one. -/
def childEdge (waiting done : Item) : Edge :=
  { previous := waiting.id, child := some done.id }

/-- A scan moves the item on once for each reading of the word with the tag, in the order of the
readings. -/
theorem scan_eq (pos : Nat) (word : String) (readings : List Reading) (item : Item) (tag : Symbol)
    (c : Chart) : c.scan pos word readings item tag =
      (readings.filter (·.pos == tag)).foldl
        (fun d r => d.advance pos item (wordEdge item word r)) c := rfl

/-- A completion moves on all items of the origin's column that wait for the finished symbol. -/
theorem complete_eq (pos : Nat) (done : Item) (c : Chart) : c.complete pos done =
    ((c.column done.origin.toNat).toList.filter (·.next? == some done.rule.lhs)).foldl
      (fun d waiting => d.advance pos waiting (childEdge waiting done)) c := by
  rw [List.foldl_filter, Chart.complete, ← Array.foldl_toList]
  rfl

/-- The word after the first `pos` tokens, with its readings. -/
def nextWord (lex : Lexicon) (tokens : List String) (pos : Nat) : Option (String × List Reading) :=
  tokens[pos]?.map fun word => (word, lex.lookup word)

/-- The charts met while that of a sentence is filled: all columns before `pos` have been walked, and
the first `i` items of column `pos`. -/
inductive Filling (g : Grammar) (lex : Lexicon) (tokens : List String) : Nat → Nat → Chart → Prop where
  | seed : Filling g lex tokens 0 0 ((empty tokens).predict g 0 Symbol.start)
  | step {pos i : Nat} {c : Chart} {item : Item} (h : Filling g lex tokens pos i c)
    (hitem : (c.column pos)[i]? = some item) :
    Filling g lex tokens pos (i + 1) (c.process g (nextWord lex tokens pos) pos item)
  | turn {pos i : Nat} {c : Chart} (h : Filling g lex tokens pos i c)
    (hend : (c.column pos)[i]? = none) (hpos : pos < tokens.length) :
    Filling g lex tokens (pos + 1) 0 c

variable {g : Grammar} {lex : Lexicon} {tokens : List String} {pos i : Nat} {c : Chart}

/-- A coherent chart that has grown from another, whose columns before `pos` it shares. -/
structure Grown (pos : Nat) (c d : Chart) : Prop where
  coherent : d.Coherent
  growth : Extends pos c d

namespace Grown

variable {d : Chart} {k : Nat}

theorem size (hd : Grown pos c d) : d.columns.size = c.tokens.length + 1 := by
  rw [hd.coherent.columns_size, hd.growth.tokens]

/-- A grown chart still is one after an insertion into a column that may change. -/
theorem insert (hd : Grown pos c d) (hpos : pos ≤ k) (hk : k ≤ c.tokens.length) (rule : Rule)
    (dot origin : Int) : Grown pos c (d.insert k rule dot origin).2 := by
  obtain ⟨hcoherent, hext, _⟩ :=
    insert_spec hd.coherent hpos (by rw [hd.size]; omega) rule dot origin
  exact ⟨hcoherent, hd.growth.trans hext⟩

/-- A grown chart still is one after an item was moved on into a column that may change. -/
theorem advance (hd : Grown pos c d) (hpos : pos ≤ k) (hk : k ≤ c.tokens.length) (item : Item)
    (edge : Edge) : Grown pos c (d.advance k item edge) := by
  obtain ⟨hcoherent, hext, _⟩ :=
    advance_spec hd.coherent hpos (by rw [hd.size]; omega) item edge
  exact ⟨hcoherent, hd.growth.trans hext⟩

end Grown

/-- What is kept by the insertion of each rule is kept by predicting a symbol. -/
theorem predict_induction {motive : Chart → Prop} (hc : c.Coherent) (hpos : pos ≤ c.tokens.length)
    (s : Symbol) (base : motive c)
    (step : ∀ rule ∈ g.rulesFor s, ∀ d, Grown pos c d → motive d →
      motive (d.insert pos rule 0 pos).2) :
    Grown pos c (c.predict g pos s) ∧ motive (c.predict g pos s) := by
  refine List.foldlRecOn (motive := fun d => Grown pos c d ∧ motive d) _ _
    ⟨⟨hc, .refl pos c⟩, base⟩ ?_
  rintro d ⟨hd, hmotive⟩ rule hrule
  exact ⟨hd.insert (Nat.le_refl pos) hpos rule 0 pos, step rule hrule d hd hmotive⟩

/-- What is kept by each insertion and each advance that an item calls for is kept by processing it;
the charts in between have grown from the first one. -/
theorem process_induction {motive : Chart → Prop} (hc : c.Coherent) (hpos : pos ≤ c.tokens.length)
    (item : Item) (base : motive c)
    (predict : ∀ s, item.next? = some s → s.isCategory = true → ∀ rule ∈ g.rulesFor s,
      ∀ d, Grown pos c d → motive d → motive (d.insert pos rule 0 pos).2)
    (scan : ∀ s word, item.next? = some s → s.isCategory = false → c.tokens[pos]? = some word →
      ∀ r ∈ lex.lookup word, r.pos = s →
      ∀ d, Grown pos c d → motive d → motive (d.advance (pos + 1) item (wordEdge item word r)))
    (complete : item.next? = none → ∀ waiting ∈ c.column item.origin.toNat,
      waiting.next? = some item.rule.lhs →
      ∀ d, Grown pos c d → motive d → motive (d.advance pos waiting (childEdge waiting item))) :
    Grown pos c (c.process g (nextWord lex c.tokens pos) pos item) ∧
      motive (c.process g (nextWord lex c.tokens pos) pos item) := by
  have hstart : Grown pos c c ∧ motive c := ⟨⟨hc, .refl pos c⟩, base⟩
  unfold process
  cases hnext : item.next? with
  | none =>
    simp only [complete_eq]
    refine List.foldlRecOn (motive := fun d => Grown pos c d ∧ motive d) _ _ hstart ?_
    rintro d ⟨hd, hmotive⟩ waiting hmem
    obtain ⟨hwaiting, hlhs⟩ := List.mem_filter.1 hmem
    exact ⟨hd.advance (Nat.le_refl pos) hpos waiting _,
      complete hnext waiting (by simpa using hwaiting) (by simpa using hlhs) d hd hmotive⟩
  | some s =>
    simp only []
    split
    · next hcategory => exact predict_induction hc hpos s base (predict s hnext hcategory)
    · next hcategory =>
      cases hword : c.tokens[pos]? with
      | none => simpa only [nextWord, hword, Option.map_none] using hstart
      | some word =>
        simp only [nextWord, hword, Option.map_some, scan_eq]
        refine List.foldlRecOn (motive := fun d => Grown pos c d ∧ motive d) _ _ hstart ?_
        rintro d ⟨hd, hmotive⟩ r hmem
        obtain ⟨hr, htag⟩ := List.mem_filter.1 hmem
        have hlt := (List.getElem?_eq_some_iff.1 hword).1
        exact ⟨hd.advance (Nat.le_succ pos) hlt item _,
          scan s word hnext (by simpa using hcategory) hword r hr (by simpa using htag) d hd hmotive⟩

/-- Whatever kind of item is processed, the chart has only grown. -/
theorem process_grown (g : Grammar) (lex : Lexicon) (hc : c.Coherent)
    (hpos : pos ≤ c.tokens.length) (item : Item) :
    Grown pos c (c.process g (nextWord lex c.tokens pos) pos item) :=
  (process_induction (motive := fun _ => True) hc hpos item trivial
    (fun _ _ _ _ _ _ _ _ => trivial) (fun _ _ _ _ _ _ _ _ _ _ _ => trivial)
    (fun _ _ _ _ _ _ _ => trivial)).1

namespace Filling

/-- A column that is being filled belongs to a position of the sentence. -/
theorem pos_le (h : Filling g lex tokens pos i c) : pos ≤ tokens.length := by
  induction h with
  | seed => exact Nat.zero_le _
  | step _ _ ih => exact ih
  | turn _ _ hpos _ => exact hpos

private theorem grown (h : Filling g lex tokens pos i c) : Grown 0 (empty tokens) c := by
  induction h with
  | seed =>
    exact (predict_induction (g := g) (motive := fun _ => True) (Coherent.empty tokens)
      (Nat.zero_le _) Symbol.start trivial (fun _ _ _ _ _ => trivial)).1
  | @step pos i c item h _ ih =>
    have htokens : c.tokens = tokens := ih.growth.tokens
    subst htokens
    have hgrown := process_grown g lex ih.coherent h.pos_le item
    exact ⟨hgrown.coherent, ih.growth.trans (hgrown.growth.mono (Nat.zero_le pos))⟩
  | turn _ _ _ ih => exact ih

theorem coherent (h : Filling g lex tokens pos i c) : c.Coherent :=
  h.grown.coherent

theorem tokens_eq (h : Filling g lex tokens pos i c) : c.tokens = tokens :=
  h.grown.growth.tokens

/-- There are edges for items of the chart only. -/
theorem edges_size_le (h : Filling g lex tokens pos i c) : c.edges.size ≤ c.items.size :=
  h.grown.growth.edges (Nat.le_refl 0)

theorem size (h : Filling g lex tokens pos i c) : c.columns.size = tokens.length + 1 := by
  rw [h.coherent.columns_size, h.tokens_eq]

/-- One step of the filling only lets the chart grow. -/
theorem step_grown (h : Filling g lex tokens pos i c) (item : Item) :
    Grown pos c (c.process g (nextWord lex tokens pos) pos item) := by
  obtain rfl := h.tokens_eq
  exact process_grown g lex h.coherent h.pos_le item

end Filling

end Earley.Chart
